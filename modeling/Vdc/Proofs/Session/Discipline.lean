import Vdc.Proofs.Property.Provenance
import Vdc.Proofs.Session.Coherence
import Vdc.Proofs.Session.Sending

/-!
# Applications that keep to a discipline

Most of what is said of sessions holds whatever their applications do. Where it matters what an
application does, a `Discipline` tells it: what the memory may be and what may be sent, both after
the calls that were made so far. `Script.Obeys` follows a script through everything that it may come
across, memory that fits and sends that go either way; a completion that a script leaves behind has
to obey after any further calls.

`Session.Disciplined` is the invariant of a session whose application obeys. It holds after every
run, `Endpoint.disciplined_run`, and by it every message of a kind that an endpoint does not send of
its own accord was allowed when it was sent.
-/

namespace Vdc

variable {σ : Type}

/-- The callback that was made. -/
def Event.call? : Event σ → Option Callback
  | .called callback _ => some callback
  | _ => none

/-- The callbacks that were made, the last one first. -/
def callsOf (journal : List (Event σ)) : List Callback := journal.filterMap Event.call?

theorem exists_called_of_mem {journal : List (Event σ)} {callback : Callback}
    (h : callback ∈ callsOf journal) :
    ∃ status past, .called callback status :: past <:+ journal := by
  obtain ⟨event, hevent, hcall⟩ := List.mem_filterMap.1 h
  obtain ⟨later, past, rfl⟩ := List.append_of_mem hevent
  cases event with
  | called callback' status =>
    obtain rfl := Option.some.inj hcall
    exact ⟨status, past, List.suffix_append _ _⟩
  | _ => cases hcall

/-- Kinds of messages that only the sends of an application bring about. -/
def MessageKind.isApplications : MessageKind → Bool
  | .vanish | .identifyDevice | .propertyResponse | .pushProperty => true
  | _ => false

/-- What answers a property request but carries no tag. -/
def Outgoing.IsUntagged : Outgoing → Prop
  | .property tree | .propertySet tree _ => tree.requestId = reservedId
  | .rows given => given.requestId = reservedId
  | _ => False

/-- What an application confines itself to, after some callbacks. -/
structure Discipline (σ : Type) where
  /-- What its memory may be. -/
  fits : List Callback → σ → Prop
  /-- What it may send. -/
  may : List Callback → Outgoing → Prop
  fits_call : ∀ {calls memory}, fits calls memory → ∀ callback, fits (callback :: calls) memory

variable {d : Discipline σ} {calls : List Callback}

/-- A script that begins after some callbacks keeps to a discipline. -/
def Script.Obeys (d : Discipline σ) : List Callback → Script σ → Prop
  | _, .done => True
  | calls, .remember change next =>
    (∀ memory, d.fits calls memory → d.fits calls (change memory)) ∧ next.Obeys d calls
  | calls, .recall next => ∀ memory, d.fits calls memory → (next memory).Obeys d calls
  | calls, .meanwhile _ next => next.Obeys d calls
  | calls, .inspect next => ∀ status, (next status).Obeys d calls
  | calls, .send what next => d.may calls what ∧ ∀ result, (next result).Obeys d calls
  | calls, .announce _ completion next =>
    (∀ later, calls <:+ later → ∀ outcome, (completion outcome).Obeys d later) ∧
      ∀ result, (next result).Obeys d calls

/-- An application keeps to a discipline whatever it is called back for. -/
def Application.Obeys (d : Discipline σ) (app : Application σ) : Prop :=
  ∀ calls callback, (app.react callback).Obeys d (callback :: calls)

namespace Discipline

/-- A completion that was left behind after some callbacks obeys whenever it is run. -/
def Binds (d : Discipline σ) (calls : List Callback) (completion : Outcome → Script σ) : Prop :=
  ∀ later, calls <:+ later → ∀ outcome, (completion outcome).Obeys d later

theorem Binds.call {completion : Outcome → Script σ} (h : d.Binds calls completion)
    (callback : Callback) : d.Binds (callback :: calls) completion :=
  fun later hlater => h later ((List.suffix_cons callback calls).trans hlater)

/-- What is sent, if only an application sends its like, is what the application was allowed to
send at that time. -/
def Accounts (d : Discipline σ) : Event σ → List (Event σ) → Prop
  | .sent m, past => m.payload.kind.isApplications = true →
    ∃ what, d.may (callsOf past) what ∧ ¬ what.IsUntagged ∧ what.message? = some m
  | _, _ => True

end Discipline

namespace Session

/-- An answer to a property request that carries no tag is not sent. -/
theorem send_of_isUntagged {what : Outgoing} (h : what.IsUntagged) (s : Session σ) :
    ∃ e, s.send what = (.error e, s) := by
  have htree : ∀ tree : Property, tree.requestId = reservedId →
      s.attempt (s.transmitProperty tree) = (.error (.parameter .untaggedTree), s) := by
    intro tree htag
    rw [transmitProperty, if_pos htag, attempt]
  cases what with
  | property tree => exact ⟨_, htree tree h⟩
  | propertySet tree code => exact ⟨_, if_pos h⟩
  | rows rows =>
    simp only [send, sendRows]
    cases hrows : rows.toProperty? with
    | ok tree => exact ⟨_, htree tree ((Rows.requestId_toProperty? hrows).trans h)⟩
    | error e => exact ⟨e, if_pos h⟩
  | _ => exact h.elim

/-- The application of a session has kept to a discipline, and some callbacks were made. -/
structure Disciplined (d : Discipline σ) (calls : List Callback) (s : Session σ) : Prop where
  calls_eq : callsOf s.journal = calls
  fits : d.fits calls s.memory
  binds : ∀ request ∈ s.pending.entries, d.Binds calls request.completion
  accounts : Throughout d.Accounts s.journal

namespace Disciplined

variable {s s' : Session σ}

/-- Whatever changes in a session but its memory, its journal and its pending requests. -/
theorem of_same (h : s.Disciplined d calls) (hmemory : s'.memory = s.memory)
    (hjournal : s'.journal = s.journal) (hpending : s'.pending.entries ⊆ s.pending.entries) :
    s'.Disciplined d calls where
  calls_eq := hjournal ▸ h.calls_eq
  fits := hmemory ▸ h.fits
  binds request hrequest := h.binds request (hpending hrequest)
  accounts := hjournal ▸ h.accounts

/-- Something happens that is no callback. -/
theorem of_event (h : s.Disciplined d calls) (event : Event σ) (hcall : event.call? = none)
    (haccounts : d.Accounts event s.journal) (hmemory : s'.memory = s.memory)
    (hjournal : s'.journal = event :: s.journal)
    (hpending : s'.pending.entries ⊆ s.pending.entries) : s'.Disciplined d calls where
  calls_eq := by
    rw [hjournal]
    exact (List.filterMap_cons_none hcall).trans h.calls_eq
  fits := hmemory ▸ h.fits
  binds request hrequest := h.binds request (hpending hrequest)
  accounts := by
    rw [hjournal]
    exact ⟨haccounts, h.accounts⟩

theorem note (h : s.Disciplined d calls) {event : Event σ} (hcall : event.call? = none)
    (haccounts : d.Accounts event s.journal) : (s.note event).Disciplined d calls :=
  h.of_event event hcall haccounts rfl rfl (List.Subset.refl _)

theorem transmit (h : s.Disciplined d calls) {m : Message} (hs : s.transmit m = .ok s')
    (haccounts : d.Accounts (.sent m) s.journal) : s'.Disciplined d calls := by
  obtain ⟨payload, transport, -, -, rfl⟩ := transmit_eq_ok hs
  exact h.of_event (.sent m) rfl haccounts rfl rfl (List.Subset.refl _)

/-- A message of a kind that an endpoint sends of its own accord needs no account. -/
theorem transmit_own (h : s.Disciplined d calls) {m : Message} (hs : s.transmit m = .ok s')
    (hkind : m.payload.kind.isApplications = false) : s'.Disciplined d calls :=
  h.transmit hs fun happlications => by rw [hkind] at happlications; cases happlications

theorem send (h : s.Disciplined d calls) {what : Outgoing} (hmay : d.may calls what) :
    (s.send what).2.Disciplined d calls := by
  -- The message of an untagged answer needs no account, since the answer is not sent.
  by_cases huntagged : what.IsUntagged
  · obtain ⟨e, hsend⟩ := send_of_isUntagged huntagged s
    rw [hsend]
    exact h
  · rcases s.send_result what with ⟨m, sent, hmessage, hm, hsend⟩ | ⟨e, hsend⟩ |
      ⟨rows, e, sent, -, -, -, hm, hsend⟩
    · rw [hsend]
      exact h.transmit hm fun _ => ⟨what, h.calls_eq.symm ▸ hmay, huntagged, hmessage⟩
    · rw [hsend]
      exact h
    · rw [hsend]
      exact h.transmit_own hm rfl

/-- An answer that an endpoint gives of its own accord needs no allowance. -/
theorem send_own (h : s.Disciplined d calls) {what : Outgoing}
    (hkind : ∀ m, what.message? = some m → m.payload.kind.isApplications = false) :
    (s.send what).2.Disciplined d calls := by
  rcases s.send_result what with ⟨m, sent, hmessage, hm, hsend⟩ | ⟨e, hsend⟩ |
    ⟨rows, e, sent, -, -, -, hm, hsend⟩
  · rw [hsend]
    exact h.transmit_own hm (hkind m hmessage)
  · rw [hsend]
    exact h
  · rw [hsend]
    exact h.transmit_own hm rfl

/-- A request is registered whose completion obeys. -/
theorem register (h : s.Disciplined d calls) {id : RequestId} {completion : Outcome → Script σ}
    {created : Nat} {pending : RequestCache (Outcome → Script σ)}
    (hregister : s.pending.register id completion created = .ok pending)
    (hbinds : d.Binds calls completion) : { s with pending := pending }.Disciplined d calls := by
  obtain ⟨-, -, rfl⟩ := RequestCache.register_eq_ok.1 hregister
  refine ⟨h.calls_eq, h.fits, ?_, h.accounts⟩
  intro request hrequest
  rcases List.mem_append.1 hrequest with hold | hnew
  · exact h.binds request hold
  · rw [List.mem_singleton.1 hnew]
    exact hbinds

theorem announce (h : s.Disciplined d calls) (subject : Subject)
    {completion : Outcome → Script σ} (hbinds : d.Binds calls completion) :
    (s.announce subject completion).2.Disciplined d calls := by
  have hnumbered : { s with lastId := s.nextId }.Disciplined d calls :=
    h.of_same rfl rfl (List.Subset.refl _)
  rcases s.announce_cases subject completion with ⟨e, hs⟩ | ⟨sent, ht, hs⟩
  · rw [hs]
    exact hnumbered.note rfl trivial
  · have hsent : sent.Disciplined d calls :=
      hnumbered.transmit_own ht (by cases subject <;> rfl)
    rcases hs with ⟨e, -, hs⟩ | ⟨pending, hregister, hs⟩
    · rw [hs]
      exact hsent.note rfl trivial
    · rw [hs]
      exact (hsent.register hregister hbinds).note rfl trivial

theorem happen (h : s.Disciplined d calls) (happenings : List Happening) :
    (happenings.foldl Session.happen s).Disciplined d calls := by
  induction happenings generalizing s with
  | nil => exact h
  | cons happening rest ih =>
    have hhappened : (s.happen happening).Disciplined d calls :=
      h.of_same rfl rfl (List.Subset.refl _)
    exact ih hhappened

/-- A script that obeys leaves a session disciplined. -/
theorem run {script : Script σ} (h : s.Disciplined d calls) (hscript : script.Obeys d calls) :
    (Session.run script s).Disciplined d calls := by
  -- The induction follows `Obeys`: what it asks for every outcome is used for the one that occurs.
  induction script generalizing s with
  | done => exact h
  | remember change next ih =>
    have hchanged : { s with memory := change s.memory }.Disciplined d calls :=
      ⟨h.calls_eq, hscript.1 _ h.fits, h.binds, h.accounts⟩
    exact ih hchanged hscript.2
  | «recall» next ih => exact ih _ h (hscript _ h.fits)
  | meanwhile happening next ih => exact ih (h.happen [happening]) hscript
  | inspect next ih => exact ih _ (h.note rfl trivial) (hscript _)
  | send what next ih => exact ih _ (h.send hscript.1) (hscript.2 _)
  | announce subject completion next _ ih => exact ih _ (h.announce subject hscript.1) (hscript.2 _)

/-! ## What the endpoint does -/

theorem finish (h : s.Disciplined d calls) {request : PendingRequest (Outcome → Script σ)}
    (hrequest : d.Binds calls request.completion) (outcome : Outcome) :
    (s.finish request outcome).Disciplined d calls := by
  have hbegun : (s.begun request outcome).Disciplined d calls := h.note rfl trivial
  exact hbegun.run (hrequest calls (List.suffix_refl calls) outcome)

theorem abandon {requests : List (PendingRequest (Outcome → Script σ) × Expiry)}
    (hrequests : ∀ request ∈ requests, d.Binds calls request.1.completion)
    (h : s.Disciplined d calls) : (s.abandon requests).Disciplined d calls := by
  induction requests generalizing s with
  | nil => exact h
  | cons request rest ih =>
    obtain ⟨hfirst, hrest⟩ := List.forall_mem_cons.1 hrequests
    exact ih hrest (h.finish hfirst _)

theorem sweep (h : s.Disciplined d calls) : s.sweep.Disciplined d calls := by
  have hmem := s.pending.mem_of_sweep s.clock s.transport.isConnected
  have hnoted : (s.note (.swept s.clock)).Disciplined d calls := h.note rfl trivial
  refine abandon ?_ (hnoted.of_same rfl rfl hmem.2)
  intro request hrequest
  exact h.binds request.1 (hmem.1 request hrequest)

theorem disconnect (h : s.Disciplined d calls) : s.disconnect.2.Disciplined d calls := by
  have hreset : s.resetTransport.Disciplined d calls := by
    unfold resetTransport
    split
    · next link _ =>
      exact h.of_event (.closed link.name) rfl trivial rfl rfl (List.Subset.refl _)
    · exact h
  refine abandon ?_ (hreset.of_same rfl rfl (List.nil_subset _))
  intro request hrequest
  obtain ⟨pending, hpending, rfl⟩ := List.mem_map.1 hrequest
  exact hreset.binds pending hpending

theorem complete (h : s.Disciplined d calls) (id : RequestId) (code : ResultCode) :
    (s.complete id code).Disciplined d calls := by
  unfold Session.complete
  split
  · next request pending htake =>
    have hrequest : request ∈ s.pending.entries :=
      List.mem_of_find?_eq_some (congrArg Prod.fst htake)
    have hrest : pending.entries ⊆ s.pending.entries := by
      have hpending : (s.pending.take id).2 = pending := congrArg Prod.snd htake
      rw [← hpending]
      exact List.eraseP_subset
    have hkept : { s with pending := pending }.Disciplined d calls := h.of_same rfl rfl hrest
    exact hkept.finish (h.binds request hrequest) _
  · exact h

theorem acceptIncoming (h : s.Disciplined d calls) : s.acceptIncoming.Disciplined d calls := by
  unfold Session.acceptIncoming
  split
  · exact h
  · split
    · next name transport _ =>
      exact h.of_event (.accepted name) rfl trivial rfl rfl (List.Subset.refl _)
    · next name transport _ =>
      exact h.of_event (.rejected name) rfl trivial rfl rfl (List.Subset.refl _)
    · exact h.of_same rfl rfl (List.Subset.refl _)

variable {app : Application σ}

theorem call (h : s.Disciplined d calls) (happ : app.Obeys d) (callback : Callback) :
    (s.call app callback).Disciplined d (callback :: calls) := by
  have hcalled : (s.note (.called callback s.status)).Disciplined d (callback :: calls) := by
    refine ⟨?_, d.fits_call h.fits callback, ?_, trivial, h.accounts⟩
    · exact congrArg (callback :: ·) h.calls_eq
    · intro request hrequest
      exact (h.binds request hrequest).call callback
  exact hcalled.run (happ calls callback)

theorem handle (h : s.Disciplined d calls) (happ : app.Obeys d) (payload : List UInt8) :
    ∃ calls', (s.handle app payload).Disciplined d calls' := by
  have htaken : (s.note (.handled payload)).Disciplined d calls := h.note rfl trivial
  have hreply (s : Session σ) (calls : List Callback) (hs : s.Disciplined d calls) (id : RequestId)
      (code : ResultCode) : (s.reply id code).Disciplined d calls :=
    hs.send_own fun m hm => by obtain rfl := Option.some.inj hm; rfl
  unfold Session.handle
  generalize s.note (.handled payload) = s', Directive.ofPayload s.dsuid s.state payload = directive
    at htaken ⊢
  cases directive with
  | ignore => exact ⟨calls, htaken⟩
  | refuse id code => exact ⟨calls, hreply s' calls htaken id code⟩
  | greet id hello =>
    simp only [obey, greet]
    split
    · exact ⟨calls, htaken⟩
    · next peer _ =>
      split
      · exact ⟨calls, htaken⟩
      · next sent hsent =>
        have hopened : { sent with state := .active peer }.Disciplined d calls :=
          (htaken.transmit_own hsent rfl).of_same rfl rfl (List.Subset.refl _)
        exact ⟨_, hopened.call happ .hello⟩
  | part dsuid => exact ⟨_, htaken.disconnect.call happ _⟩
  | pong dsuid =>
    exact ⟨calls, htaken.send_own fun m hm => by obtain rfl := Option.some.inj hm; rfl⟩
  | remove id dsuid =>
    have hcalled := htaken.call happ (.remove dsuid)
    simp only [obey, remove]
    split
    · exact ⟨_, hcalled⟩
    · exact ⟨_, hreply _ _ hcalled id _⟩
  | complete id code => exact ⟨calls, htaken.complete id code⟩
  | deliver callback => exact ⟨_, htaken.call happ callback⟩

end Disciplined

end Session

namespace Endpoint

open Session

/-- The scripts that are performed between work cycles keep to a discipline, each after the
callbacks that were made until then. -/
def Performs (d : Discipline σ) : Endpoint σ → List (Input σ) → Prop
  | _, [] => True
  | e, input :: rest =>
    (∀ script, input = .perform script → script.Obeys d (callsOf e.session.journal)) ∧
      (e.step input).2.Performs d rest

theorem performs_of_forall {inputs : List (Input σ)}
    (h : ∀ script, .perform script ∈ inputs → ∀ calls, script.Obeys d calls) (e : Endpoint σ) :
    e.Performs d inputs := by
  induction inputs generalizing e with
  | nil => trivial
  | cons input rest ih =>
    refine ⟨?_, ih (fun script hscript => h script (List.mem_cons_of_mem _ hscript)) _⟩
    rintro script rfl
    exact h script List.mem_cons_self _

theorem disciplined_workSession {app : Application σ} (happ : app.Obeys d) {s : Session σ}
    (h : s.Disciplined d calls) (meanwhile : List Happening) :
    ∃ calls', (workSession app meanwhile s).Disciplined d calls' := by
  have hmeanwhile := h.sweep.happen meanwhile
  have hreceive : ∀ s : Session σ, s.Disciplined d calls →
      ∃ calls', (receive app s).Disciplined d calls' := by
    intro s hs
    unfold receive
    split
    · next payload transport _ =>
      have hread : { s with transport := transport }.Disciplined d calls :=
        hs.of_same rfl rfl (List.Subset.refl _)
      exact hread.handle happ payload
    · exact ⟨calls, hs.disconnect⟩
    · exact ⟨calls, hs⟩
  simp only [workSession]
  generalize meanwhile.foldl Session.happen s.sweep = s at hmeanwhile
  have haccepted : (if s.transport.poll.incoming then s.acceptIncoming else s).Disciplined d
      calls := by
    split
    · exact hmeanwhile.acceptIncoming
    · exact hmeanwhile
  split
  · exact hreceive _ haccepted
  · exact ⟨calls, haccepted⟩

theorem application_step (e : Endpoint σ) (input : Input σ) :
    (e.step input).2.application = e.application := by
  cases input with
  | work meanwhile =>
    simp only [step, work]
    split <;> rfl
  | close =>
    simp only [step, close]
    split <;> rfl
  | perform | happen => rfl

theorem disciplined_step {e : Endpoint σ} (happ : e.application.Obeys d)
    (h : e.session.Disciplined d calls) {input : Input σ}
    (hperform : ∀ script, input = .perform script → script.Obeys d calls) :
    ∃ calls', (e.step input).2.session.Disciplined d calls' := by
  cases input with
  | work meanwhile =>
    simp only [step, work]
    split
    · exact ⟨calls, h⟩
    · exact disciplined_workSession happ h meanwhile
  | perform script => exact ⟨calls, h.run (hperform script rfl)⟩
  | close =>
    simp only [step, close]
    split
    · exact ⟨calls, h⟩
    · have hclosed : { e.session.disconnect.2 with
          transport := e.session.disconnect.2.transport.close }.Disciplined d calls :=
        h.disconnect.of_same rfl rfl (List.Subset.refl _)
      exact ⟨calls, hclosed.note rfl trivial⟩
  | happen happening => exact ⟨calls, h.of_same rfl rfl (List.Subset.refl _)⟩

theorem disciplined_inputs {e : Endpoint σ} {inputs : List (Input σ)} (happ : e.application.Obeys d)
    (h : e.session.Disciplined d calls) (hperforms : e.Performs d inputs) :
    ∃ calls', (e.run inputs).session.Disciplined d calls' := by
  induction inputs generalizing e calls with
  | nil => exact ⟨calls, h⟩
  | cons input rest ih =>
    obtain ⟨hfirst, hrest⟩ := hperforms
    -- The calls so far are those of the journal, and a step may add to them.
    rw [h.calls_eq] at hfirst
    obtain ⟨calls', hstep⟩ := disciplined_step happ h hfirst
    exact ih ((e.application_step input).symm ▸ happ) hstep hrest

theorem application_of_start {app : Application σ} {memory : σ} {dsuid : String} {config : Config}
    {announcer : Option Announcer} {port : UInt16} {e : Endpoint σ}
    (h : start app memory dsuid config announcer port = .ready e) : e.application = app := by
  unfold start at h
  split at h
  · cases h
  · dsimp only at h
    split at h
    · cases h
      rfl
    · split at h <;> cases h <;> rfl

/-- An application that obeys keeps to its discipline in whatever its endpoint takes after its
start. -/
theorem disciplined_run {app : Application σ} {memory : σ} {dsuid : String} {config : Config}
    {announcer : Option Announcer} {port : UInt16} {e : Endpoint σ}
    (h : start app memory dsuid config announcer port = .ready e) (happ : app.Obeys d)
    (hmemory : d.fits [] memory) {inputs : List (Input σ)} (hperforms : e.Performs d inputs) :
    ∃ calls, (e.run inputs).session.Disciplined d calls := by
  have hnew : e.session.Disciplined d [] := by
    rw [(of_start h).1]
    exact ⟨rfl, hmemory, nofun, trivial⟩
  exact disciplined_inputs ((application_of_start h).symm ▸ happ) hnew hperforms

end Endpoint

end Vdc
