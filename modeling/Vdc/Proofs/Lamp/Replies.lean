import Vdc.Proofs.Lamp.Length
import Vdc.Proofs.Message.Normal
import Vdc.Proofs.Session.Answering
import Vdc.Proofs.Session.Output

/-!
# What the lamp replies

The lamp has a reply to every request about properties, whatever device it is about, and
`Lamp.call_eq` is all that it does about one: it remembers the name that was set, if one was, and
tries once to send the reply.

Whether that comes to anything depends on the length of the reply. Its text exists because the
brightness is finite in every run, `Lamp.discipline`, and is short unless it has the name of the
lamp in it.
-/

namespace Vdc

namespace Lamp

/-- The reply to a request about properties, in the container named `own`. -/
def reply? (own : String) (lamp : Lamp) : Callback → Option Message
  | .getProperty dsuid query response =>
    if dsuid = lamp.dsuid then some (answer query response lamp.properties).message
    else if dsuid = own then some (answer query response containerProperties).message
    else some (.genericResponse response.requestId .notFound)
  | .setProperty dsuid values response =>
    some (.genericResponse response.requestId
      (if dsuid = lamp.dsuid then (lamp.setProperties values).1 else .notFound))
  | _ => none

/-- The lamp after a request about properties. -/
def after (lamp : Lamp) : Callback → Lamp
  | .setProperty dsuid values _ =>
    if dsuid = lamp.dsuid then (lamp.setProperties values).2 else lamp
  | _ => lamp

/-- Whether a request asks the lamp for its name. -/
def IsAskedItsName (lamp : Lamp) (callback : Callback) : Prop :=
  ∃ query response, callback = .getProperty lamp.dsuid query response ∧
    wants query (some "name") = true

variable {lamp : Lamp} {own : String} {m reply : Message} {callback : Callback}

/-- There is a reply to every request about properties, and it has the id of the request. -/
theorem exists_reply? (own : String) (lamp : Lamp) (h : m.HandsOut callback) :
    ∃ reply, reply? own lamp callback = some reply ∧ reply.id = m.id := by
  obtain ⟨-, dsuid, elements, tree, -, ⟨-, rfl⟩ | ⟨-, rfl⟩⟩ := h
  · rw [reply?]
    split
    · exact ⟨_, rfl, by rw [Property.message, answer_eq]; rfl⟩
    · split
      · exact ⟨_, rfl, by rw [Property.message, answer_eq]; rfl⟩
      · exact ⟨_, rfl, rfl⟩
  · exact ⟨_, rfl, rfl⟩

/-- All that the lamp does about a request: the name is remembered if it is set, and the reply is
sent. -/
theorem call_eq {s : Session Lamp} (h : m.HandsOut callback)
    (hreply : reply? s.dsuid s.memory callback = some reply) :
    ∃ new s', new.filterMap Event.message? = [] ∧
      s' = { s with memory := s.memory.after callback, journal := new ++ s.journal } ∧
      s.call application callback = (s'.attempt (s'.transmit reply)).2 := by
  obtain ⟨hid, dsuid, elements, tree, -, ⟨-, rfl⟩ | ⟨-, rfl⟩⟩ := h
  -- A query is answered in one of three ways, as `reply?` tells, and each is one attempt to send.
  · have hproperties (s : Session Lamp) (properties : List Node) :
        Session.run (.tell (.property (answer tree (.forRequest m.id) properties))) s =
          (s.attempt (s.transmit (answer tree (.forRequest m.id) properties).message)).2 := by
      have htag : (answer tree (.forRequest m.id) properties).requestId ≠ reservedId := by
        rw [answer_eq]
        exact hid
      simp only [Script.tell, Session.run, Session.send, Session.transmitProperty, if_neg htag]
      rfl
    refine ⟨[.inspected s.status, .called (.getProperty dsuid tree (.forRequest m.id)) s.status], _,
      rfl, rfl, ?_⟩
    have hcall : s.call application (.getProperty dsuid tree (.forRequest m.id)) =
        Session.run (if dsuid = s.memory.dsuid then
            .tell (.property (answer tree (.forRequest m.id) s.memory.properties))
          else if dsuid = s.dsuid then
            .tell (.property (answer tree (.forRequest m.id) containerProperties))
          else .tell (.generic m.id .notFound))
        ((s.note (.called (.getProperty dsuid tree (.forRequest m.id)) s.status)).note
          (.inspected s.status)) := rfl
    rw [hcall]
    rw [reply?] at hreply
    split at hreply
    · next hlamp =>
      obtain rfl := Option.some.inj hreply
      rw [if_pos hlamp, hproperties]
      rfl
    · next hlamp =>
      rw [if_neg hlamp]
      split at hreply
      · next hown =>
        obtain rfl := Option.some.inj hreply
        rw [if_pos hown, hproperties]
        rfl
      · next hown =>
        obtain rfl := Option.some.inj hreply
        rw [if_neg hown]
        rfl
  -- A setting is carried out first, if it is for the lamp, and then its result is sent.
  · have htell (s : Session Lamp) (code : ResultCode) :
        Session.run (.tell (.propertySet (.forRequest m.id) code)) s =
          (s.attempt (s.transmit (.genericResponse m.id code))).2 := by
      have htag : (Property.forRequest m.id).requestId ≠ reservedId := hid
      simp only [Script.tell, Session.run, Session.send, if_neg htag]
      rfl
    refine ⟨[.called (.setProperty dsuid tree (.forRequest m.id)) s.status], _, rfl, rfl, ?_⟩
    have hcall : s.call application (.setProperty dsuid tree (.forRequest m.id)) =
        Session.run (if dsuid = s.memory.dsuid then
            .remember (fun lamp => (lamp.setProperties tree).2)
              (.tell (.propertySet (.forRequest m.id) (s.memory.setProperties tree).1))
          else .tell (.propertySet (.forRequest m.id) .notFound))
        (s.note (.called (.setProperty dsuid tree (.forRequest m.id)) s.status)) := rfl
    rw [hcall]
    rw [reply?] at hreply
    obtain rfl := Option.some.inj hreply
    by_cases hlamp : dsuid = s.memory.dsuid
    · simp only [if_pos hlamp, Session.run, htell, after]
      rfl
    · simp only [if_neg hlamp, htell, after]
      rfl

/-! ## The text of a reply -/

theorem isFinite_message_answer {query : Property} {id : RequestId} {properties : List Node}
    (h : ∀ node ∈ properties, ∀ d ∈ node.toElement.doubles, d.isFinite = true) :
    ∀ d ∈ (answer query (.forRequest id) properties).message.doubles, d.isFinite = true := by
  refine Element.forall_mem_listDoubles_iff.2 fun element helement => ?_
  rw [answer_eq, Property.toElements, Node.toElements_eq_map] at helement
  obtain ⟨node, hnode, rfl⟩ := List.mem_map.1 helement
  exact h node (List.mem_filter.1 hnode).1

theorem isFinite_genericResponse (id : RequestId) (code : ResultCode) :
    ∀ d ∈ (Message.genericResponse id code).doubles, d.isFinite = true := nofun

theorem isFinite_properties (hfinite : lamp.brightness.isFinite = true) :
    ∀ node ∈ lamp.properties, ∀ d ∈ node.toElement.doubles, d.isFinite = true := by
  intro node hnode
  simp only [properties, List.mem_cons, List.not_mem_nil, or_false] at hnode
  rcases hnode with rfl | rfl | rfl | rfl
  · exact List.forall_mem_nil _
  · exact List.forall_mem_nil _
  · exact List.forall_mem_nil _
  · exact List.forall_mem_singleton.2 hfinite

theorem isFinite_containerProperties :
    ∀ node ∈ containerProperties, ∀ d ∈ node.toElement.doubles, d.isFinite = true := by
  decide +kernel

/-- The reply has a text. -/
theorem isFinite_reply (hfinite : lamp.brightness.isFinite = true) (h : m.HandsOut callback)
    (hreply : reply? own lamp callback = some reply) : ∀ d ∈ reply.doubles, d.isFinite = true := by
  obtain ⟨-, dsuid, elements, tree, -, ⟨-, rfl⟩ | ⟨-, rfl⟩⟩ := h
  · rw [reply?] at hreply
    split at hreply
    · obtain rfl := Option.some.inj hreply
      exact isFinite_message_answer (isFinite_properties hfinite)
    · split at hreply
      · obtain rfl := Option.some.inj hreply
        exact isFinite_message_answer isFinite_containerProperties
      · obtain rfl := Option.some.inj hreply
        exact isFinite_genericResponse _ _
  · obtain rfl := Option.some.inj hreply
    exact isFinite_genericResponse _ _

/-- The text is short, unless it has the name of the lamp in it and that is long. -/
theorem length_reply_le (hfinite : lamp.brightness.isFinite = true) (h : m.HandsOut callback)
    (hreply : reply? own lamp callback = some reply) :
    reply.toJson.render.length ≤ 2297 ∨ lamp.IsAskedItsName callback ∧
      reply.toJson.render.length ≤ 2297 + (Json.quote lamp.name).length := by
  obtain ⟨hid, dsuid, elements, tree, -, ⟨-, rfl⟩ | ⟨-, rfl⟩⟩ := h
  · have hanswer (properties : List Node) :
        (answer tree (.forRequest m.id) properties).message.toJson.render.length ≤
          70 + ((properties.filter fun node => wants tree node.name).map Node.extent).sum := by
      have htag : (answer tree (.forRequest m.id) properties).requestId ≠ reservedId := by
        rw [answer_eq]
        exact hid
      have htext := Property.length_message_le htag
      rwa [answer_eq] at htext ⊢
    rw [reply?] at hreply
    split at hreply
    · next hlamp =>
      obtain rfl := Option.some.inj hreply
      -- Only an answer about the lamp itself can have the name in it.
      have htext := hanswer lamp.properties
      have hextents := extents_wanted_le lamp tree hfinite
      split at hextents
      · next hwants => exact .inr ⟨⟨tree, .forRequest m.id, by rw [hlamp], hwants⟩, by omega⟩
      · exact .inl (by omega)
    · split at hreply
      · obtain rfl := Option.some.inj hreply
        have htext := hanswer containerProperties
        have hextents := extents_container_le tree
        exact .inl (by omega)
      · obtain rfl := Option.some.inj hreply
        have htext := Message.length_genericResponse_le hid .notFound
        exact .inl (Nat.le_trans htext (by decide))
  · obtain rfl := Option.some.inj hreply
    exact .inl (Nat.le_trans (Message.length_genericResponse_le hid _) (by decide))

/-! ## The brightness -/

theorem isFinite_percent (n : Nat) (h : n ≤ 100) : (percent n).isFinite = true :=
  Double.isFinite_ofInt (by omega) (by omega)

theorem isFinite_clamp {v low high : Double} (hv : v.isFinite = true) (hlow : low.isFinite = true)
    (hhigh : high.isFinite = true) : (v.clamp low high).isFinite = true := by
  have hraised : (if v.below low then low else v).isFinite = true := by
    split
    · exact hlow
    · exact hv
  simp only [Double.clamp]
  generalize (if v.below low then low else v) = raised at hraised
  split
  · exact hhigh
  · exact hraised

/-- A callback that sets a value sets a finite one. -/
def SetsFinite : Callback → Prop
  | .setChannelValue _ _ _ value _ => value.isFinite = true
  | _ => True

/-- The lamp keeps its name on the network, and its brightness is finite as long as the values are
that it is set to. -/
def discipline (dsuid : String) : Discipline Lamp where
  fits calls lamp := lamp.dsuid = dsuid ∧
    ((∀ callback ∈ calls, SetsFinite callback) → lamp.brightness.isFinite = true)
  may _ _ := True
  fits_call h _ :=
    ⟨h.1, fun hcalls => h.2 fun earlier hearlier => hcalls earlier (.tail _ hearlier)⟩

theorem application_obeys (dsuid : String) : application.Obeys (discipline dsuid) := by
  have hadjust (calls : List Callback) (dsuids : List String) (change : Lamp → Lamp)
      (h : ∀ lamp, (discipline dsuid).fits calls lamp →
        (discipline dsuid).fits calls (change lamp)) :
      (adjust dsuids change).Obeys (discipline dsuid) calls := by
    refine ⟨fun lamp hlamp => ?_, trivial⟩
    dsimp only
    split
    · exact h lamp hlamp
    · exact hlamp
  have htell (calls : List Callback) (what : Outgoing) :
      (Script.tell what).Obeys (discipline dsuid) calls := ⟨trivial, fun _ => trivial⟩
  intro calls callback
  cases callback with
  | hello =>
    refine fun status => ⟨fun later _ outcome => ?_, fun _ => trivial⟩
    dsimp only
    split
    · exact fun lamp _ => ⟨fun _ _ _ => trivial, fun _ => trivial⟩
    · trivial
  | ping target =>
    intro lamp _
    dsimp only
    split
    · exact htell _ _
    · trivial
  | callScene dsuids scene force scope =>
    simp only [application, react, sceneBrightness?]
    split
    · next brightness hbrightness =>
      have hfinite : brightness.isFinite = true := by
        split at hbrightness
        · rw [← Option.some.inj hbrightness]
          exact isFinite_percent 0 (by decide)
        · split at hbrightness
          · rw [← Option.some.inj hbrightness]
            exact isFinite_percent 100 (by decide)
          · cases hbrightness
      exact hadjust _ _ _ fun lamp hlamp => ⟨hlamp.1, fun _ => hfinite⟩
    · trivial
  | setChannelValue dsuids applyNow channel value scope =>
    simp only [application, react]
    split
    -- Clamping keeps a value finite, but does not make it so: one that is not a number stays.
    · have hclamped (hvalue : value.isFinite = true) :
          (value.clamp (percent 0) (percent 100)).isFinite = true :=
        isFinite_clamp hvalue (isFinite_percent 0 (by decide)) (isFinite_percent 100 (by decide))
      refine hadjust _ _ _ fun lamp hlamp => ⟨hlamp.1, fun hcalls => ?_⟩
      dsimp only
      exact hclamped
        (hcalls (.setChannelValue dsuids applyNow channel value scope) List.mem_cons_self)
    · trivial
  | getProperty target query response =>
    intro lamp _ status
    dsimp only
    repeat' split
    all_goals exact htell _ _
  | setProperty target values response =>
    intro lamp _
    dsimp only
    split
    · refine ⟨fun lamp hlamp => ?_, htell _ _⟩
      simp only [setProperties]
      split
      · exact ⟨hlamp.1, hlamp.2⟩
      · exact hlamp
      · exact hlamp
    · exact htell _ _
  | _ => trivial

/-- What is asked for by a message that was read sets nothing to a value that is not finite. -/
theorem setsFinite_of_callback? {bytes : List UInt8} (hdecode : Message.decode bytes = .ok m)
    (h : (Directive.ofMessage own m).callback? = some callback) : SetsFinite callback := by
  have hfinite := (Message.normal_of_decode hdecode).isFinite
  obtain ⟨id, payload⟩ := m
  cases callback with
  | setChannelValue dsuids applyNow channel value scope =>
    cases payload with
    | setChannelValue notice =>
      obtain ⟨target, now, output, set, within⟩ := notice
      rcases target with _ | ⟨first, rest⟩ <;> rcases output with _ | output <;>
        rcases set with _ | set
      case cons.some.some =>
        obtain rfl : set = value := (Callback.setChannelValue.inj (Option.some.inj h)).2.2.2.1
        exact hfinite set List.mem_cons_self
      all_goals
        rw [Directive.ofMessage, Directive.lacking, Directive.callback?_refusal] at h
        cases h
    | _ =>
      simp only [Directive.ofMessage, Directive.ofScene, Directive.ofPropertyRequest,
        Directive.lacking] at h
      repeat' split at h
      all_goals first
        | contradiction
        | (rw [Directive.callback?_refusal] at h; cases h)
        | cases h
  | _ => trivial

/-- Every value that was set in a session was read from a payload, and so is finite. -/
theorem setsFinite_of_mem_callsOf {s : Session Lamp} (h : s.Occasioned)
    (hcallback : callback ∈ callsOf s.journal) : SetsFinite callback := by
  obtain ⟨status, past, hsuffix⟩ := exists_called_of_mem hcallback
  cases callback with
  | setChannelValue dsuids applyNow channel value scope =>
    obtain ⟨payload, before, m, own, -, hdecode, hcalled⟩ :=
      throughout_iff.1 h _ past hsuffix trivial
    exact setsFinite_of_callback? hdecode hcalled
  | _ => trivial

end Lamp

end Vdc
