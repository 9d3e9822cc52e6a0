import Vdc.Proofs.Session.Answering

/-!
# What an application is called back with

An application learns of a message by a callback that has the fields of the message as its
arguments. `Message.Conveys` is this correspondence, one constructor for each kind of message that
is passed on, and `Directive.callback?_ofMessage_iff` is the statement that an endpoint calls back
for what a message conveys and for nothing else.

Together with the round trip of messages it spans the whole way from the session manager's message
to the application, `delivers_handle`: nothing is lost, swapped or filled in on it.
-/

namespace Vdc

namespace MessageKind

/-- Kinds of messages that a session manager sends for the devices of an endpoint. -/
def isDelivered : MessageKind → Bool
  | .ping | .remove | .callScene | .saveScene | .undoScene | .setLocalPriority | .callMinScene
  | .identify | .setControlValue | .setChannelValue | .getProperty | .setProperty => true
  | _ => false

/-- All of them are for a session that is open. -/
theorem precedesSession_of_isDelivered {kind : MessageKind} (h : kind.isDelivered = true) :
    SessionState.precedesSession kind = false := by
  cases kind <;> first | rfl | cases h

end MessageKind

/-- The fields that a notice about a scene needs, and whether they are there. -/
def SceneNotice.required (notice : SceneNotice) : List (String × Bool) :=
  [("dsuid", !notice.dsuids.isEmpty), ("scene", notice.scene.isSome)]

namespace Payload

/-- The fields that a message of this kind needs, by their names on the wire, and whether they are
there. A list of devices is there if it is not empty. -/
def required : Payload → List (String × Bool)
  | .requestHello hello => [("dsuid", hello.dsuid.isSome), ("api_version", hello.apiVersion.isSome)]
  | .ping dsuid | .remove dsuid | .getProperty dsuid _ | .setProperty dsuid _ =>
    [("dsuid", dsuid.isSome)]
  | .callScene notice _ | .saveScene notice | .undoScene notice | .setLocalPriority notice
  | .callMinScene notice => notice.required
  | .identify dsuids _ => [("dsuid", !dsuids.isEmpty)]
  | .setControlValue notice =>
    [("dsuid", !notice.dsuids.isEmpty), ("name", notice.name.isSome),
      ("value", notice.value.isSome)]
  | .setChannelValue notice =>
    [("dsuid", !notice.dsuids.isEmpty), ("channel", notice.channel.isSome),
      ("value", notice.value.isSome)]
  | _ => []

/-- The fields that a message needs and lacks. -/
def missing (payload : Payload) : List String :=
  (payload.required.filter (!·.2)).map (·.1)

/-- The elements of a request about properties. -/
def asked? : Payload → Option (List Element)
  | .getProperty _ elements | .setProperty _ elements => some elements
  | _ => none

end Payload

/-- What a message is to an application at an endpoint named `own`: a callback with the fields of
the message. A request about properties hands out the tree of its elements, and with it an empty
tree for the answer. -/
inductive Message.Conveys (own : String) : Message → Callback → Prop
  | ping {id dsuid} (hother : dsuid ≠ own) :
      Conveys own ⟨id, .ping (some dsuid)⟩ (.ping dsuid)
  | remove {id dsuid} : Conveys own ⟨id, .remove (some dsuid)⟩ (.remove dsuid)
  | callScene {id dsuids scene scope force} (hsome : dsuids ≠ []) :
      Conveys own ⟨id, .callScene ⟨dsuids, some scene, scope⟩ force⟩
        (.callScene dsuids scene force scope)
  | saveScene {id dsuids scene scope} (hsome : dsuids ≠ []) :
      Conveys own ⟨id, .saveScene ⟨dsuids, some scene, scope⟩⟩ (.saveScene dsuids scene scope)
  | undoScene {id dsuids scene scope} (hsome : dsuids ≠ []) :
      Conveys own ⟨id, .undoScene ⟨dsuids, some scene, scope⟩⟩ (.undoScene dsuids scene scope)
  | setLocalPriority {id dsuids scene scope} (hsome : dsuids ≠ []) :
      Conveys own ⟨id, .setLocalPriority ⟨dsuids, some scene, scope⟩⟩
        (.setLocalPriority dsuids scene scope)
  | callMinScene {id dsuids scene scope} (hsome : dsuids ≠ []) :
      Conveys own ⟨id, .callMinScene ⟨dsuids, some scene, scope⟩⟩
        (.callMinScene dsuids scene scope)
  | identify {id dsuids scope} (hsome : dsuids ≠ []) :
      Conveys own ⟨id, .identify dsuids scope⟩ (.identify dsuids scope)
  | setControlValue {id dsuids name value scope} (hsome : dsuids ≠ []) :
      Conveys own ⟨id, .setControlValue ⟨dsuids, some name, some value, scope⟩⟩
        (.setControlValue dsuids name value scope)
  | setChannelValue {id dsuids applyNow channel value scope} (hsome : dsuids ≠ []) :
      Conveys own ⟨id, .setChannelValue ⟨dsuids, applyNow, some channel, some value, scope⟩⟩
        (.setChannelValue dsuids applyNow channel value scope)
  | getProperty {id dsuid elements query} (hid : id ≠ reservedId)
      (hquery : Property.ofElements? elements = .ok query) :
      Conveys own ⟨id, .getProperty (some dsuid) elements⟩ (.getProperty dsuid query ⟨id, []⟩)
  | setProperty {id dsuid elements values} (hid : id ≠ reservedId)
      (hvalues : Property.ofElements? elements = .ok values) :
      Conveys own ⟨id, .setProperty (some dsuid) elements⟩ (.setProperty dsuid values ⟨id, []⟩)

namespace Directive

variable {own : String}

/-- What lacks a field is passed on to nobody. -/
theorem callback?_lacking (id : RequestId) (callback : Callback) :
    (lacking id).callback? ≠ some callback := by
  rw [lacking, callback?_refusal]
  intro h
  cases h

/-- A notice about a scene is passed on if it names devices and a scene. -/
theorem callback?_ofScene {id : RequestId} {notice : SceneNotice}
    {make : List String → Int32 → Scope → Callback} {callback : Callback}
    (h : (ofScene id notice make).callback? = some callback) :
    ∃ dsuids scene scope, dsuids ≠ [] ∧ notice = ⟨dsuids, some scene, scope⟩ ∧
      callback = make dsuids scene scope := by
  obtain ⟨dsuids, scene, scope⟩ := notice
  cases dsuids with
  | nil => exact absurd h (callback?_lacking id callback)
  | cons dsuid dsuids =>
    cases scene with
    | none => exact absurd h (callback?_lacking id callback)
    | some scene =>
      exact ⟨dsuid :: dsuids, scene, scope, List.cons_ne_nil _ _, rfl,
        (Option.some.inj h).symm⟩

/-- The application is called back for what a message conveys, and only for that. -/
theorem callback?_ofMessage_iff {m : Message} {callback : Callback} :
    (ofMessage own m).callback? = some callback ↔ m.Conveys own callback := by
  constructor
  · intro h
    obtain ⟨id, payload⟩ := m
    cases payload with
    | ping dsuid =>
      cases dsuid with
      | none => exact absurd h (callback?_lacking id callback)
      | some dsuid =>
        simp only [ofMessage] at h
        split at h
        · cases h
        · next hother =>
          obtain rfl := Option.some.inj h
          exact .ping hother
    | remove dsuid =>
      cases dsuid with
      | none => exact absurd h (callback?_lacking id callback)
      | some dsuid =>
        obtain rfl := Option.some.inj h
        exact .remove
    | callScene notice force =>
      have hscene : (ofScene id notice fun dsuids scene scope =>
          .callScene dsuids scene force scope).callback? = some callback := h
      obtain ⟨dsuids, scene, scope, hsome, rfl, rfl⟩ := callback?_ofScene hscene
      exact .callScene hsome
    | saveScene notice =>
      obtain ⟨dsuids, scene, scope, hsome, rfl, rfl⟩ := callback?_ofScene h
      exact .saveScene hsome
    | undoScene notice =>
      obtain ⟨dsuids, scene, scope, hsome, rfl, rfl⟩ := callback?_ofScene h
      exact .undoScene hsome
    | setLocalPriority notice =>
      obtain ⟨dsuids, scene, scope, hsome, rfl, rfl⟩ := callback?_ofScene h
      exact .setLocalPriority hsome
    | callMinScene notice =>
      obtain ⟨dsuids, scene, scope, hsome, rfl, rfl⟩ := callback?_ofScene h
      exact .callMinScene hsome
    | identify dsuids scope =>
      cases dsuids with
      | nil => exact absurd h (callback?_lacking id callback)
      | cons dsuid dsuids =>
        obtain rfl := Option.some.inj h
        exact .identify (List.cons_ne_nil _ _)
    | setControlValue notice =>
      rcases notice with ⟨_ | ⟨dsuid, dsuids⟩, _ | name, _ | value, scope⟩
      case cons.some.some =>
        obtain rfl := Option.some.inj h
        exact .setControlValue (List.cons_ne_nil _ _)
      all_goals exact absurd h (callback?_lacking id callback)
    | setChannelValue notice =>
      rcases notice with ⟨_ | ⟨dsuid, dsuids⟩, applyNow, _ | channel, _ | value, scope⟩
      case cons.some.some =>
        obtain rfl := Option.some.inj h
        exact .setChannelValue (List.cons_ne_nil _ _)
      all_goals exact absurd h (callback?_lacking id callback)
    | getProperty dsuid elements =>
      obtain ⟨hid, name, tree, rfl, htree, rfl⟩ := callback?_ofPropertyRequest h
      exact .getProperty hid htree
    | setProperty dsuid elements =>
      obtain ⟨hid, name, tree, rfl, htree, rfl⟩ := callback?_ofPropertyRequest h
      exact .setProperty hid htree
    | requestHello | bye => cases h
    | genericResponse =>
      simp only [ofMessage] at h
      split at h <;> cases h
    | _ =>
      simp only [ofMessage, callback?_refusal] at h
      cases h
  · intro h
    cases h with
    | @ping id dsuid hother =>
      show (if dsuid = own then pong dsuid else deliver (.ping dsuid)).callback? = _
      rw [if_neg hother]
      rfl
    | remove => rfl
    | getProperty hid hquery | setProperty hid hquery =>
      simp only [ofMessage, ofPropertyRequest, if_neg hid, hquery]
      rfl
    | callScene hsome | saveScene hsome | undoScene hsome | setLocalPriority hsome
    | callMinScene hsome | identify hsome | setControlValue hsome | setChannelValue hsome =>
      obtain ⟨dsuid, dsuids, rfl⟩ := List.exists_cons_of_ne_nil hsome
      rfl

end Directive

/-- A notice about a scene that lacks nothing names devices and a scene. -/
theorem SceneNotice.eq_of_missing_eq_nil (notice : SceneNotice)
    (h : (notice.required.filter (!·.2)).map (·.1) = []) :
    ∃ dsuids scene scope, dsuids ≠ [] ∧ notice = ⟨dsuids, some scene, scope⟩ := by
  rcases notice with ⟨_ | ⟨dsuid, dsuids⟩, _ | scene, scope⟩
  case cons.some => exact ⟨_, scene, scope, List.cons_ne_nil _ _, rfl⟩
  all_goals cases h

/-- What is passed on to an application is what has all fields that it needs, apart from a ping for
the endpoint itself and from a request about properties that has no id or is not well formed. -/
theorem Message.exists_conveys_iff {own : String} {m : Message}
    (hkind : m.payload.kind.isDelivered = true) :
    (∃ callback, m.Conveys own callback) ↔
      m.payload.missing = [] ∧ m.payload ≠ .ping (some own) ∧
        ∀ elements, m.payload.asked? = some elements →
          m.id ≠ reservedId ∧ ∃ tree, Property.ofElements? elements = .ok tree := by
  constructor
  · rintro ⟨callback, h⟩
    cases h with
    | ping hother =>
      refine ⟨rfl, ?_, nofun⟩
      intro hping
      obtain rfl := Option.some.inj (Payload.ping.inj hping)
      exact hother rfl
    | remove => exact ⟨rfl, nofun, nofun⟩
    | getProperty hid htree | setProperty hid htree =>
      refine ⟨rfl, nofun, ?_⟩
      intro elements helements
      obtain rfl := Option.some.inj helements
      exact ⟨hid, _, htree⟩
    | callScene hsome | saveScene hsome | undoScene hsome | setLocalPriority hsome
    | callMinScene hsome | identify hsome | setControlValue hsome | setChannelValue hsome =>
      obtain ⟨dsuid, dsuids, rfl⟩ := List.exists_cons_of_ne_nil hsome
      exact ⟨rfl, nofun, nofun⟩
  · obtain ⟨id, payload⟩ := m
    rintro ⟨hmissing, hping, hasked⟩
    cases payload with
    | ping dsuid =>
      cases dsuid with
      | none => cases hmissing
      | some dsuid => exact ⟨_, .ping fun hown => hping (by rw [hown])⟩
    | remove dsuid =>
      cases dsuid with
      | none => cases hmissing
      | some dsuid => exact ⟨_, .remove⟩
    | callScene notice force =>
      obtain ⟨dsuids, scene, scope, hsome, rfl⟩ := notice.eq_of_missing_eq_nil hmissing
      exact ⟨_, .callScene hsome⟩
    | saveScene notice =>
      obtain ⟨dsuids, scene, scope, hsome, rfl⟩ := notice.eq_of_missing_eq_nil hmissing
      exact ⟨_, .saveScene hsome⟩
    | undoScene notice =>
      obtain ⟨dsuids, scene, scope, hsome, rfl⟩ := notice.eq_of_missing_eq_nil hmissing
      exact ⟨_, .undoScene hsome⟩
    | setLocalPriority notice =>
      obtain ⟨dsuids, scene, scope, hsome, rfl⟩ := notice.eq_of_missing_eq_nil hmissing
      exact ⟨_, .setLocalPriority hsome⟩
    | callMinScene notice =>
      obtain ⟨dsuids, scene, scope, hsome, rfl⟩ := notice.eq_of_missing_eq_nil hmissing
      exact ⟨_, .callMinScene hsome⟩
    | identify dsuids scope =>
      cases dsuids with
      | nil => cases hmissing
      | cons dsuid dsuids => exact ⟨_, .identify (List.cons_ne_nil _ _)⟩
    | setControlValue notice =>
      rcases notice with ⟨_ | ⟨dsuid, dsuids⟩, _ | name, _ | value, scope⟩
      case cons.some.some => exact ⟨_, .setControlValue (List.cons_ne_nil _ _)⟩
      all_goals cases hmissing
    | setChannelValue notice =>
      rcases notice with ⟨_ | ⟨dsuid, dsuids⟩, applyNow, _ | channel, _ | value, scope⟩
      case cons.some.some => exact ⟨_, .setChannelValue (List.cons_ne_nil _ _)⟩
      all_goals cases hmissing
    | getProperty dsuid elements =>
      obtain ⟨hid, tree, htree⟩ := hasked elements rfl
      cases dsuid with
      | none => cases hmissing
      | some dsuid => exact ⟨_, .getProperty hid htree⟩
    | setProperty dsuid elements =>
      obtain ⟨hid, tree, htree⟩ := hasked elements rfl
      cases dsuid with
      | none => cases hmissing
      | some dsuid => exact ⟨_, .setProperty hid htree⟩
    | _ => cases hkind

variable {σ : Type}

/-! ## Callbacks in a journal -/

namespace Session

variable {s s' : Session σ}

theorem callsOf_of_notes {P : Event σ → Prop} (h : Notes P s s')
    (hcalls : ∀ event, P event → event.call? = none) : callsOf s'.journal = callsOf s.journal := by
  obtain ⟨new, hjournal, hnew⟩ := h
  have hnone : new.filterMap Event.call? = [] :=
    List.filterMap_eq_nil_iff.2 fun event hevent => hcalls event (hnew event hevent)
  rw [hjournal, callsOf, List.filterMap_append, hnone, List.nil_append, callsOf]

theorem callsOf_run (script : Script σ) (s : Session σ) :
    callsOf (run script s).journal = callsOf s.journal := by
  apply callsOf_of_notes (notes_run script s)
  intro event hevent
  cases event with
  | called => exact hevent.elim
  | _ => rfl

theorem callsOf_send (s : Session σ) (what : Outgoing) :
    callsOf (s.send what).2.journal = callsOf s.journal := by
  apply callsOf_of_notes (Act.send s what).notes
  intro event hevent
  cases event with
  | called => exact hevent.1.elim
  | _ => rfl

theorem callsOf_call (app : Application σ) (s : Session σ) (callback : Callback) :
    callsOf (s.call app callback).journal = callback :: callsOf s.journal :=
  callsOf_run _ _

/-- Doing what is asked for in an open session calls the application back as the directive says, and
not again, whatever the application does. -/
theorem callsOf_obey (app : Application σ) (s : Session σ) {directive : Directive}
    (h : directive.IsInSession) :
    callsOf (s.obey app directive).journal =
      directive.callback?.toList ++ callsOf s.journal := by
  cases directive with
  | ignore => rfl
  | refuse | pong => exact callsOf_send s _
  | deliver callback => exact callsOf_call app s callback
  | remove id dsuid =>
    simp only [obey, remove]
    split
    · exact callsOf_call app s _
    · exact (callsOf_send _ _).trans (callsOf_call app s _)
  | greet | part | complete => exact h.elim

/-! ## From a message to its callback -/

/-- What an application hears of a message that a session manager sends for its devices. -/
structure Delivers (s : Session σ) (m : Message) (s' : Session σ) : Prop where
  /-- It is called back exactly for what the message conveys, and only once. -/
  called_iff : ∀ callback,
    callsOf s'.journal = callback :: callsOf s.journal ↔ m.Conveys s.dsuid callback
  /-- A message that conveys nothing brings about no callback. -/
  silent : (∀ callback, ¬ m.Conveys s.dsuid callback) → callsOf s'.journal = callsOf s.journal
  /-- A message conveys something if it has all fields that it needs, and is neither a ping for the
  endpoint itself nor a request about properties that has no id or is not well formed. -/
  conveys_iff : (∃ callback, m.Conveys s.dsuid callback) ↔
    m.payload.missing = [] ∧ m.payload ≠ .ping (some s.dsuid) ∧
      ∀ elements, m.payload.asked? = some elements →
        m.id ≠ reservedId ∧ ∃ tree, Property.ofElements? elements = .ok tree
  /-- A ping for the endpoint itself brings about one pong and no callback. -/
  pong : m.payload = .ping (some s.dsuid) → callsOf s'.journal = callsOf s.journal ∧
    (s.transport.Takes (.notification (.pong s.dsuid)) →
      Sends [.notification (.pong s.dsuid)] s s')

/-- Whatever the application is, in an open session the text of a message for its devices brings
about the callback that the message conveys. -/
theorem delivers_handle (app : Application σ) {s : Session σ} {peer : String}
    (hstate : s.state = .active peer) {m : Message} (hkind : m.payload.kind.isDelivered = true)
    (hfinite : ∀ d ∈ m.doubles, d.isFinite = true) (hnesting : m.toJson.nesting ≤ Json.maxNesting) :
    ∃ bytes, m.encode = .ok bytes ∧ s.Delivers m (s.handle app bytes) := by
  refine ⟨m.toJson.render, Message.encode_eq_ok hfinite, ?_⟩
  have hdecode : Message.decode m.toJson.render = .ok m := by
    rw [Message.decode_render hfinite, if_pos hnesting]
  have hdirective : Directive.ofPayload s.dsuid s.state m.toJson.render =
      Directive.ofMessage s.dsuid m := by
    rw [Directive.ofPayload_of_decode hdecode, hstate]
    rfl
  have hhandle : s.handle app m.toJson.render =
      (s.note (.handled m.toJson.render)).obey app (Directive.ofMessage s.dsuid m) := by
    rw [handle, hdirective]
  have hcalls : callsOf (s.handle app m.toJson.render).journal =
      (Directive.ofMessage s.dsuid m).callback?.toList ++ callsOf s.journal := by
    rw [hhandle]
    exact callsOf_obey app _ (Directive.isInSession_ofMessage s.dsuid
      (MessageKind.precedesSession_of_isDelivered hkind))
  have hsilent (h : ∀ callback, ¬ m.Conveys s.dsuid callback) :
      callsOf (s.handle app m.toJson.render).journal = callsOf s.journal := by
    have hnone : (Directive.ofMessage s.dsuid m).callback? = none := by
      apply Option.eq_none_iff_forall_ne_some.2
      intro callback hcallback
      exact h callback (Directive.callback?_ofMessage_iff.1 hcallback)
    rw [hcalls, hnone, Option.toList_none, List.nil_append]
  refine ⟨fun callback => ?_, hsilent, Message.exists_conveys_iff hkind, fun hping => ⟨?_, ?_⟩⟩
  · rw [hcalls, ← Directive.callback?_ofMessage_iff]
    cases (Directive.ofMessage s.dsuid m).callback? <;> simp
  · apply hsilent
    intro callback hconveys
    exact ((Message.exists_conveys_iff hkind).1 ⟨callback, hconveys⟩).2.1 hping
  · intro htakes
    have hpong : Directive.ofMessage s.dsuid m = .pong s.dsuid := by
      simp only [Directive.ofMessage, hping, if_true]
    rw [hhandle, hpong]
    exact Sends.trans (.note s _ rfl) (.of_takes htakes)

/-- An application that remembers for which devices the value of a channel was set. -/
def listing : Application (List String) where
  react
    | .setChannelValue dsuids _ _ _ _ => .remember (fun _ => dsuids) .done
    | _ => .done
  permits _ _ := false

/-- Two devices get the value negative zero for the channel zero in the zone zero of no group. -/
theorem delivers_handle_channel :
    ∃ (s : Session (List String)) (m : Message) (bytes : List UInt8), s.state = .active "P" ∧
      m.encode = .ok bytes ∧
      callsOf (s.handle listing bytes).journal =
        [.setChannelValue ["B", "A"] true 0 (.zero true) ⟨none, some 0⟩] ∧
      (s.handle listing bytes).memory = ["B", "A"] ∧
      s.Delivers m (s.handle listing bytes) := by
  let s : Session (List String) := { new "own" .default [] 0 with state := .active "P" }
  let m : Message :=
    ⟨0, .setChannelValue ⟨["B", "A"], true, some 0, some (.zero true), ⟨none, some 0⟩⟩⟩
  obtain ⟨bytes, hencode, hdelivers⟩ := delivers_handle listing (s := s) (m := m) rfl rfl
    (by decide) (by decide)
  have hcalled : callsOf (s.handle listing bytes).journal = _ :: callsOf s.journal :=
    (hdelivers.called_iff _).2 (.setChannelValue (List.cons_ne_nil _ _))
  have hmemory : (s.handle listing m.toJson.render).memory = ["B", "A"] := by decide +kernel
  obtain rfl : m.toJson.render = bytes :=
    Except.ok.inj ((Message.encode_eq_ok (m := m) (by decide)).symm.trans hencode)
  exact ⟨s, m, m.toJson.render, rfl, hencode, hcalled, hmemory, hdelivers⟩

end Session

end Vdc
