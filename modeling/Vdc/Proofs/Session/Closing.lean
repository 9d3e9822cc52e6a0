import Vdc.Proofs.Session.Parting

/-!
# Closed endpoints

An endpoint that was closed is closed for good (`staysClosed_run`): it works no more, nothing can be
sent, no request is made, no callback and no completion runs, and the announcement, withdrawn once,
does not come back. The completions that run while it is being closed cannot prevent this, because
the connection and the state are given up before them.

`Endpoint.Shut` is what holds of a closed endpoint and is kept by whatever it takes. That closing
leads there from every state needs one fact about open endpoints, that no work cycle withdraws the
announcement.
-/

namespace Vdc

variable {σ : Type}

/-- Whether the announcement was withdrawn. -/
def Event.isWithdrawal : Event σ → Bool
  | .withdrawn => true
  | _ => false

theorem Event.IsRoutine.isWithdrawal_eq {event : Event σ} (h : event.IsRoutine) :
    event.isWithdrawal = false := by
  cases event <;> first | rfl | exact h.elim

theorem Event.IsUnheard.isWithdrawal_eq {own : String} {event : Event σ}
    (h : event.IsUnheard own) : event.isWithdrawal = false := by
  cases event <;> first | rfl | exact h.elim

/-- How often the announcement was withdrawn. -/
def withdrawals (journal : List (Event σ)) : Nat := journal.countP Event.isWithdrawal

/-- Events that are no withdrawals are not counted. -/
theorem withdrawals_of_notes {P : Event σ → Prop} {s s' : Session σ} (h : Session.Notes P s s')
    (hP : ∀ event, P event → event.isWithdrawal = false) :
    withdrawals s'.journal = withdrawals s.journal := by
  obtain ⟨new, hjournal, hnew⟩ := h
  have hnone : new.countP Event.isWithdrawal = 0 := by
    refine List.countP_eq_zero.2 fun event hevent => ?_
    rw [hP event (hnew event hevent)]
    exact Bool.false_ne_true
  rw [withdrawals, withdrawals, hjournal, List.countP_append, hnone, Nat.zero_add]

namespace Endpoint

open Session

variable {e e' : Endpoint σ}

/-! ## Work cycles -/

theorem withdrawals_receive (app : Application σ) (s : Session σ) :
    withdrawals (receive app s).journal = withdrawals s.journal := by
  unfold receive
  split
  · next payload transport _ =>
    let taken : Session σ := { s with transport := transport }.note (.handled payload)
    have hobeyed := notes_obey app taken (Directive.ofPayload s.dsuid s.state payload)
    have hkept : withdrawals (taken.obey app (Directive.ofPayload s.dsuid s.state payload)).journal =
        withdrawals taken.journal :=
      withdrawals_of_notes hobeyed fun _ h => h.isWithdrawal_eq
    exact hkept
  · exact withdrawals_of_notes s.notes_disconnect fun _ h => h.isRoutine.isWithdrawal_eq
  · rfl

/-- A work cycle does not withdraw the announcement. -/
theorem withdrawals_workSession (app : Application σ) (meanwhile : List Happening)
    (s : Session σ) : withdrawals (workSession app meanwhile s).journal = withdrawals s.journal := by
  obtain ⟨s', hnotes, hwork⟩ := workSession_cases app meanwhile s
  have hbefore := withdrawals_of_notes hnotes fun _ h => h.isWithdrawal_eq
  rcases hwork with hwork | hwork <;> rw [hwork]
  · exact hbefore
  · rw [withdrawals_receive, hbefore]

/-! ## Closed endpoints -/

/-- An endpoint is closed, with everything given up that it had, and the announcement withdrawn
once. -/
structure Shut (e : Endpoint σ) : Prop where
  isClosed : e.isClosed = true
  ended : e.session.Ended
  listening : e.session.transport.listening = false
  withdrawals_eq : withdrawals e.session.journal = 1
  record?_eq : e.record? = none

theorem record?_stop (announcer : Option Announcer) :
    (announcer.map Announcer.stop).bind (·.record) = none := by
  cases announcer <;> rfl

/-- An endpoint that was open is closed with its connection ended and its announcement stopped. -/
theorem shut_close (hopen : e.isClosed = false) (hnone : withdrawals e.session.journal = 0) :
    e.close.Shut := by
  have hended := e.session.ended_disconnect
  have hwithdrawals : withdrawals e.session.disconnect.2.journal = 0 := by
    rw [← hnone]
    exact withdrawals_of_notes e.session.notes_disconnect fun _ h => h.isRoutine.isWithdrawal_eq
  simp only [close, hopen, Bool.false_eq_true, if_false]
  refine ⟨rfl, hended.close, rfl, ?_, record?_stop e.announcer⟩
  change (Event.withdrawn :: e.session.disconnect.2.journal).countP Event.isWithdrawal = 1
  rw [List.countP_cons_of_pos rfl]
  exact congrArg (· + 1) hwithdrawals

/-- A closed endpoint stays closed if its session changes only as scripts change one that has
ended. -/
theorem Shut.of_rests {s : Session σ} (h : e.Shut) (hrests : Rests e.session s)
    (hlistening : s.transport.listening = e.session.transport.listening) :
    { e with session := s }.Shut where
  isClosed := h.isClosed
  ended := hrests.ended
  listening := hlistening.trans h.listening
  withdrawals_eq :=
    (withdrawals_of_notes hrests.notes fun _ h => h.isWithdrawal_eq).trans h.withdrawals_eq
  record?_eq := h.record?_eq

theorem listening_of_act {s s' : Session σ} (h : Act s s') (hs : s.transport.held = none) :
    s'.transport.listening = s.transport.listening := by
  cases h with
  | remember | inspect => rfl
  | happen happening => cases happening <;> rfl
  | send what =>
    obtain ⟨e, h⟩ := send_of_unheld hs what
    rw [h]
  | announce subject completion =>
    obtain ⟨e, h⟩ := announce_of_unheld hs subject completion
    rw [h]
    rfl

theorem listening_run (script : Script σ) {s : Session σ} (hs : s.transport.held = none) :
    (Session.run script s).transport.listening = s.transport.listening := by
  have h := acts_run script s
  generalize Session.run script s = s' at h ⊢
  suffices s'.transport.held = none ∧ s'.transport.listening = s.transport.listening from this.2
  induction h with
  | refl => exact ⟨hs, rfl⟩
  | tail _ hlast ih =>
    exact ⟨(hlast.of_unheld ih.1).1, (listening_of_act hlast ih.1).trans ih.2⟩

theorem Shut.work_eq (h : e.Shut) (meanwhile : List Happening) :
    e.work meanwhile = (.error .notConnected, e) := by
  simp only [work, h.isClosed, if_true]

theorem Shut.close_eq (h : e.Shut) : e.close = e := by
  simp only [close, h.isClosed, if_true]

/-- Whatever a closed endpoint takes, it stays closed, and nobody hears of it. -/
theorem Shut.step (h : e.Shut) (input : Input σ) :
    (e.step input).2.Shut ∧ Rests e.session (e.step input).2.session := by
  cases input with
  | work meanwhile =>
    simp only [Endpoint.step, h.work_eq]
    exact ⟨h, .refl h.ended⟩
  | close =>
    simp only [Endpoint.step, h.close_eq]
    exact ⟨h, .refl h.ended⟩
  | perform script =>
    have hrests := Rests.of_run h.ended script
    exact ⟨h.of_rests hrests (listening_run script h.ended.held), hrests⟩
  | happen happening =>
    have hact : Act e.session (e.session.happen happening) := .happen e.session happening
    have hrests := Rests.of_act h.ended hact
    exact ⟨h.of_rests hrests (listening_of_act hact h.ended.held), hrests⟩

theorem Shut.run (h : e.Shut) (inputs : List (Input σ)) :
    (e.run inputs).Shut ∧ Rests e.session (e.run inputs).session := by
  induction inputs generalizing e with
  | nil => exact ⟨h, .refl h.ended⟩
  | cons input rest ih =>
    obtain ⟨hstep, hrests⟩ := h.step input
    obtain ⟨hlast, hlater⟩ := ih hstep
    exact ⟨hlast, hrests.trans hlater⟩

/-! ## Runs -/

/-- An endpoint that is open has not withdrawn its announcement, and one that is closed is so for
good. -/
structure OpenOrShut (e : Endpoint σ) : Prop where
  opened : e.isClosed = false → withdrawals e.session.journal = 0
  shut : e.isClosed = true → e.Shut

theorem OpenOrShut.close (h : e.OpenOrShut) : e.close.Shut := by
  cases hclosed : e.isClosed with
  | false => exact shut_close hclosed (h.opened hclosed)
  | true =>
    rw [(h.shut hclosed).close_eq]
    exact h.shut hclosed

theorem OpenOrShut.step (h : e.OpenOrShut) (input : Input σ) : (e.step input).2.OpenOrShut := by
  cases hclosed : e.isClosed with
  | true =>
    have hshut := ((h.shut hclosed).step input).1
    exact ⟨fun hopen => (nomatch hshut.isClosed.symm.trans hopen), fun _ => hshut⟩
  | false =>
    have hopen {s : Session σ} (hs : withdrawals s.journal = withdrawals e.session.journal) :
        { e with session := s }.OpenOrShut :=
      ⟨fun _ => hs.trans (h.opened hclosed),
        fun htrue => nomatch hclosed.symm.trans htrue⟩
    cases input with
    | work meanwhile =>
      have hwork : (e.step (.work meanwhile)).2 =
          { e with session := workSession e.application meanwhile e.session } := by
        simp only [Endpoint.step, work, hclosed, Bool.false_eq_true, if_false]
      rw [hwork]
      exact hopen (withdrawals_workSession e.application meanwhile e.session)
    | perform script =>
      exact hopen (withdrawals_of_notes (notes_run script e.session)
        fun _ h => h.isParting.isRoutine.isWithdrawal_eq)
    | happen happening => exact hopen rfl
    | close =>
      have hshut := h.close
      exact ⟨fun hopen => (nomatch hshut.isClosed.symm.trans hopen), fun _ => hshut⟩

theorem OpenOrShut.run (h : e.OpenOrShut) (inputs : List (Input σ)) :
    (e.run inputs).OpenOrShut := by
  induction inputs generalizing e with
  | nil => exact h
  | cons input rest ih => exact ih (h.step input)

/-- What an endpoint is after it was closed, told from what it was then. -/
structure StaysClosed (closed now : Endpoint σ) : Prop where
  /-- It does not work. -/
  work : ∀ meanwhile, now.work meanwhile = (.error .notConnected, now)
  /-- Closing it again changes nothing. -/
  close : now.close = now
  /-- Everything fails that a script attempts to send or to announce. -/
  fails : ∀ script : Script σ, script.Fails now.session
  /-- No connection is held, no session is open, nothing is pending and nobody can connect. -/
  ended : now.session.Ended
  listening : now.session.transport.listening = false
  /-- Nothing was written on a connection. -/
  past_eq : now.session.transport.past = closed.session.transport.past
  /-- Nothing was sent or registered and neither a callback nor a completion was run. -/
  notes : Notes (Event.IsUnheard closed.session.dsuid) closed.session now.session
  /-- The announcement was withdrawn once, and is gone. -/
  withdrawals_eq : withdrawals now.session.journal = 1
  record?_eq : now.record? = none

variable {app : Application σ} {memory : σ} {dsuid : String} {config : Config}
  {announcer : Option Announcer} {port : UInt16}

/-- An endpoint that was closed in whatever state stays closed, whatever it takes then. -/
theorem staysClosed_run (h : start app memory dsuid config announcer port = .ready e)
    (inputs later : List (Input σ)) :
    (e.run inputs).close.StaysClosed ((e.run inputs).close.run later) := by
  obtain ⟨hsession, hopen⟩ := of_start h
  have hstart : e.OpenOrShut := by
    refine ⟨fun _ => ?_, fun hclosed => nomatch hopen.symm.trans hclosed⟩
    rw [hsession]
    rfl
  have hclose : (e.run inputs).close.Shut := (hstart.run inputs).close
  obtain ⟨hshut, hrests⟩ := hclose.run later
  exact ⟨hshut.work_eq, hshut.close_eq, fun script => fails_of_unheld script hshut.ended.held,
    hshut.ended, hshut.listening, hrests.past_eq, hrests.notes, hshut.withdrawals_eq,
    hshut.record?_eq⟩

/-- A published endpoint is closed while a container waits for its reply. What its completion
announces is not made, nor is what is announced after a second connection has arrived. -/
theorem staysClosed_run_published :
    ∃ (e : Endpoint (List String)) (inputs later : List (Input (List String))),
      start .default [] "own" .default (some ⟨["dsvdc"], none⟩) 49500 = .ready e ∧
        (e.run inputs).session.pending.size = 1 ∧ (e.run inputs).record?.isSome = true ∧
        (e.run inputs).close.session.memory = ["ended"] ∧
        ((e.run inputs).close.run later).session.memory = ["ended"] ∧
        (e.run inputs).close.StaysClosed ((e.run inputs).close.run later) := by
  have h : start .default ([] : List String) "own" .default (some ⟨["dsvdc"], none⟩) 49500 =
      .ready ⟨.default, .new "own" .default [] 0,
        some ⟨["dsvdc"], some ⟨"dsvdc #2", "_ds-vdc._tcp", 49500, ["dSUID=own"]⟩⟩, false⟩ := rfl
  let again : Script (List String) :=
    .announce (.container "own") (fun _ => .remember (· ++ ["again"]) .done) fun _ => .done
  let inputs : List (Input (List String)) := [.arrive (.fresh "peer"), .work,
    .perform (.announce (.container "own") (fun _ => .remember (· ++ ["ended"]) again)
      fun _ => .done)]
  let later : List (Input (List String)) :=
    [.work, .arrive (.fresh "second"), .perform again, .close, .elapse 60000, .work]
  exact ⟨_, inputs, later, h, by decide +kernel, by decide +kernel, by decide +kernel,
    by decide +kernel, staysClosed_run h inputs later⟩

end Endpoint

end Vdc
