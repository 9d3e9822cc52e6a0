import Vdc.Proofs.Session.Delivery
import Vdc.Proofs.Session.Discipline

/-!
# Which requests property responses answer

A property response that an endpoint writes has the id of a request for which the application was
called back before, whatever the application is. This needs one thing of it, which it cannot help:
that it makes its trees with the operations that there are, `Discipline.making`. The tag of the tree
that was sent then stems from a tree that was handed out, and a tree is handed out only when the
payload right before is a well-formed request, whose id is the tag.

`Session.Occasioned` is the second half, an invariant of every session, and the first is told by
`Session.Disciplined` and `Property.MadeFrom.tag`.
-/

namespace Vdc

variable {σ : Type}

/-! ## What a callback is made for -/

/-- A message is a well-formed request about properties, and a callback hands out what it asks for
and an empty tree with its id. -/
def Message.HandsOut (m : Message) (callback : Callback) : Prop :=
  m.id ≠ reservedId ∧ ∃ dsuid elements tree, Property.ofElements? elements = .ok tree ∧
    ((m.payload = .getProperty (some dsuid) elements ∧
        callback = .getProperty dsuid tree (.forRequest m.id)) ∨
      (m.payload = .setProperty (some dsuid) elements ∧
        callback = .setProperty dsuid tree (.forRequest m.id)))

/-- Of the trees that are handed out for a request only the one for the answer is tagged, with the
id of the request. -/
theorem Message.HandsOut.requestId_eq {m : Message} {callback : Callback}
    (h : m.HandsOut callback) {tree : Property} (htree : tree ∈ callback.trees)
    (htag : tree.requestId ≠ reservedId) : tree.requestId = m.id := by
  obtain ⟨-, dsuid, elements, asked, hasked, ⟨-, rfl⟩ | ⟨-, rfl⟩⟩ := h
  all_goals
    rcases List.mem_pair.1 htree with rfl | rfl
    · exact absurd (Property.requestId_ofElements? hasked) htag
    · rfl

/-- What asks for the properties of a device hands out a tree with its id. -/
theorem Directive.callback?_ofPropertyRequest {id : RequestId} {dsuid : Option String}
    {elements : List Element} {make : String → Property → Property → Callback} {callback : Callback}
    (h : (ofPropertyRequest id dsuid elements make).callback? = some callback) :
    id ≠ reservedId ∧ ∃ name tree, dsuid = some name ∧ Property.ofElements? elements = .ok tree ∧
      callback = make name tree (.forRequest id) := by
  unfold ofPropertyRequest at h
  by_cases hid : id = reservedId
  · rw [if_pos hid] at h
    cases h
  · rw [if_neg hid] at h
    cases dsuid with
    | none =>
      simp only [lacking, refusal, if_neg hid] at h
      cases h
    | some name =>
      cases htree : Property.ofElements? elements with
      | error e =>
        simp only [htree] at h
        cases h
      | ok tree =>
        simp only [htree] at h
        exact ⟨hid, name, tree, rfl, rfl, (Option.some.inj h).symm⟩

theorem Directive.callback?_refusal (id : RequestId) (code : ResultCode) :
    (refusal id code).callback? = none := by
  unfold refusal
  split <;> rfl

/-- Trees are handed out for requests about properties only. -/
theorem Directive.handsOut_of_callback? {own : String} {m : Message} {callback : Callback}
    (h : (ofMessage own m).callback? = some callback) (htrees : callback.trees ≠ []) :
    m.HandsOut callback := by
  obtain ⟨id, payload⟩ := m
  cases payload with
  | getProperty dsuid elements =>
    obtain ⟨hid, name, tree, rfl, htree, rfl⟩ := callback?_ofPropertyRequest h
    exact ⟨hid, name, elements, tree, htree, .inl ⟨rfl, rfl⟩⟩
  | setProperty dsuid elements =>
    obtain ⟨hid, name, tree, rfl, htree, rfl⟩ := callback?_ofPropertyRequest h
    exact ⟨hid, name, elements, tree, htree, .inr ⟨rfl, rfl⟩⟩
  | _ =>
    -- Whatever else calls the application back hands out nothing.
    simp only [ofMessage, ofScene, lacking] at h
    repeat' split at h
    all_goals first
      | (rw [callback?_refusal] at h; cases h)
      | exact absurd (congrArg Callback.trees (Option.some.inj h)).symm htrees
      | contradiction

/-- Trees are handed out in an open session only. -/
theorem Callback.isInSession_of_trees {callback : Callback} (h : callback.trees ≠ []) :
    callback.IsInSession := by
  cases callback with
  | hello | bye => exact absurd rfl h
  | _ => trivial

/-! ## Callbacks and the payloads before them -/

/-- A callback of an open session is made for the message whose payload was taken up right
before. -/
def Event.IsOccasioned : Event σ → List (Event σ) → Prop
  | .called callback _, past => callback.IsInSession → ∃ payload before m own,
    past = .handled payload :: before ∧ Message.decode payload = .ok m ∧
      (Directive.ofMessage own m).callback? = some callback
  | _, _ => True

namespace Session

/-- Every callback of an open session was made for the message right before it. -/
def Occasioned (s : Session σ) : Prop := Throughout Event.IsOccasioned s.journal

theorem Occasioned.of_notes {s s' : Session σ} {P : Event σ → Prop} (h : s.Occasioned)
    (hnotes : Notes P s s') (hcalls : ∀ event, P event → event.call? = none) : s'.Occasioned := by
  obtain ⟨new, hjournal, hnew⟩ := hnotes
  unfold Occasioned
  rw [hjournal]
  refine h.append fun event hevent past => ?_
  cases event with
  | called callback status => cases hcalls _ (hnew _ hevent)
  | _ => trivial

theorem Occasioned.move {m m' : Moment σ} (h : m.session.Occasioned) (hmove : Move m m') :
    m'.session.Occasioned := by
  cases hmove with
  | act owed hact =>
    refine h.of_notes hact.notes fun event hevent => ?_
    cases event with
    | called => exact hevent.1.elim
    | _ => rfl
  | finish | sweep | accept | reject | take | withdraw => exact ⟨trivial, h⟩
  | turnAway => exact h
  | answer => exact ⟨trivial, trivial, h⟩
  | greet id hello peer hasked hcheck hs =>
    obtain ⟨payload, transport, -, -, rfl⟩ := transmit_eq_ok hs
    exact ⟨nofun, trivial, h⟩
  | @call s directive callback hasked hcallback =>
    refine ⟨fun _ => ?_, h⟩
    obtain ⟨payload, before, hjournal, hdirective⟩ := hasked
    obtain ⟨m, hdecode, -, rfl⟩ := Directive.of_ofPayload hdirective
      (by rintro rfl; cases hcallback) (by rintro id code rfl; cases hcallback)
    exact ⟨payload, before, m, s.dsuid, hjournal, hdecode, hcallback⟩
  | farewell => exact ⟨nofun, h⟩
  | hangUp s =>
    show s.resetTransport.Occasioned
    unfold resetTransport
    split
    · exact ⟨trivial, h⟩
    · exact h

end Session

/-! ## What is sent with a tree -/

/-- What answers a property request is made from some given trees. -/
def Outgoing.MadeFrom (given : Property → Prop) : Outgoing → Prop
  | .property tree | .propertySet tree _ => tree.MadeFrom given
  | .rows made => made.MadeFrom given
  | _ => True

/-- The tree of a property response that is sent was made from the given ones. -/
theorem Outgoing.MadeFrom.tree {given : Property → Prop} {what : Outgoing} {m : Message}
    (h : what.MadeFrom given) (hmessage : what.message? = some m)
    (hkind : m.payload.kind = .propertyResponse) :
    ∃ tree : Property, tree.MadeFrom given ∧ tree.requestId = m.id ∧
      (tree.requestId = reservedId → what.IsUntagged) := by
  cases what with
  | property tree =>
    obtain rfl := Option.some.inj hmessage
    exact ⟨tree, h, rfl, id⟩
  | rows rows =>
    cases hrows : rows.toProperty? with
    | error e => simp [message?, hrows, Except.toOption] at hmessage
    | ok tree =>
      simp only [message?, hrows, Except.toOption, Option.map_some, Option.some.injEq] at hmessage
      obtain rfl := hmessage
      refine ⟨tree, .ofRows h hrows, rfl, fun htag => ?_⟩
      exact (Rows.requestId_toProperty? hrows).symm.trans htag
  | _ =>
    obtain rfl := Option.some.inj hmessage
    cases hkind

/-- The discipline of an application that makes its trees and rows with the operations that there
are, from trees that were handed out to it; `trees` and `rows` tell which of them a memory holds. -/
def Discipline.making (trees : σ → Property → Prop) (rows : σ → Rows → Prop) : Discipline σ where
  fits calls memory :=
    (∀ tree, trees memory tree → tree.MadeFrom (Property.HandedOut calls)) ∧
      ∀ given, rows memory given → given.MadeFrom (Property.HandedOut calls)
  may calls what := what.MadeFrom (Property.HandedOut calls)
  fits_call h callback := by
    have hmore : ∀ calls (p : Property), p.HandedOut calls → p.HandedOut (callback :: calls) := by
      rintro calls p ⟨earlier, hearlier, hp⟩
      exact ⟨earlier, List.mem_cons_of_mem _ hearlier, hp⟩
    exact ⟨fun tree htree => (h.1 tree htree).mono (hmore _),
      fun given hgiven => (h.2 given hgiven).mono (hmore _)⟩

/-! ## Runs -/

namespace Endpoint

variable {app : Application σ} {memory : σ} {dsuid : String} {config : Config}
  {announcer : Option Announcer} {port : UInt16} {e : Endpoint σ}

theorem occasioned_run (h : start app memory dsuid config announcer port = .ready e)
    (inputs : List (Input σ)) : (e.run inputs).session.Occasioned := by
  refine (moves_inputs e inputs).preserve (P := fun m => m.session.Occasioned)
    (fun hmove hm => hm.move hmove) ?_
  rw [(of_start h).1]
  trivial

/-- What an endpoint writes about properties answers what it was asked. -/
structure AnswersRequests (limit : Nat) (e : Endpoint σ) : Prop where
  /-- A property response has the id of a request that the application was called back for before it
  was sent: the payload of a well-formed request was taken up, and what it asks for handed out with
  its id. -/
  response : ∀ m past, .sent m :: past <:+ e.session.journal →
    m.payload.kind = .propertyResponse → m.id ≠ reservedId ∧
      ∃ request callback status payload before, request.id = m.id ∧ request.HandsOut callback ∧
        Message.decode payload = .ok request ∧
        .called callback status :: .handled payload :: before <:+ past
  /-- What stands on the connections is what was sent. -/
  written : e.WritesFrames limit
  /-- A tree without a tag is not sent in answer, and nothing is written. -/
  untagged : ∀ (s : Session σ) (tree : Property), tree.requestId = reservedId →
    s.send (.property tree) = (.error (.parameter .untaggedTree), s) ∧
      ∀ code, s.send (.propertySet tree code) = (.error (.parameter .untaggedTree), s)
  /-- Nor is anything else that answers a request without a tag, rows included. -/
  unsent : ∀ (s : Session σ) (what : Outgoing), what.IsUntagged → ∃ e, s.send what = (.error e, s)
  /-- Tags are kept or lost, but never made up. -/
  tags : Property.TagRules

/-- Whatever an application sends, if it makes its trees with the operations that there are, the
property responses that its endpoint writes answer requests that it was asked before. -/
theorem answersRequests_run (h : start app memory dsuid config announcer port = .ready e)
    {trees : σ → Property → Prop} {rows : σ → Rows → Prop} (happ : app.Obeys (.making trees rows))
    (hmemory : (Discipline.making trees rows).fits [] memory) {inputs : List (Input σ)}
    (hperforms : e.Performs (.making trees rows) inputs) :
    (e.run inputs).AnswersRequests config.frameLimit := by
  obtain ⟨calls, hdisciplined⟩ := disciplined_run h happ hmemory hperforms
  have hoccasioned := throughout_iff.1 (occasioned_run h inputs)
  refine ⟨?_, framed_run h inputs, ?_, fun s what h => s.send_of_isUntagged h, Property.tagRules⟩
  · intro m past hsent hkind
    -- What was sent was made from a tree that was handed out, and has its tag.
    obtain ⟨what, hmay, htagged, hmessage⟩ :=
      throughout_iff.1 hdisciplined.accounts _ past hsent (by rw [hkind]; rfl)
    obtain ⟨tree, hmade, hid, huntagged⟩ := Outgoing.MadeFrom.tree hmay hmessage hkind
    have htag : tree.requestId ≠ reservedId := fun htag => htagged (huntagged htag)
    obtain ⟨given, ⟨callback, hcall, hgiven⟩, hsame⟩ := hmade.tag.resolve_left htag
    -- It was handed out for the payload right before the callback.
    obtain ⟨status, earlier, hearlier⟩ := exists_called_of_mem hcall
    have htrees : callback.trees ≠ [] := List.ne_nil_of_mem hgiven
    obtain ⟨payload, before, request, own, rfl, hdecode, hcallback⟩ :=
      hoccasioned _ earlier (hearlier.trans ((List.suffix_cons _ past).trans hsent))
        (callback.isInSession_of_trees htrees)
    have hhands := Directive.handsOut_of_callback? hcallback htrees
    have hrequest : request.id = m.id :=
      (hhands.requestId_eq hgiven (hsame ▸ htag)).symm.trans (hsame.trans hid)
    exact ⟨hid ▸ htag, request, callback, status, payload, before, hrequest, hhands, hdecode,
      hearlier⟩
  · intro s tree htag
    have hproperty : s.send (.property tree) = s.attempt (s.transmitProperty tree) := rfl
    rw [hproperty, Session.transmitProperty, if_pos htag]
    exact ⟨rfl, fun code => if_pos htag⟩

/-- An application that keeps the tree it was handed out last. -/
def keeping : Application (Option Property) where
  react
    | .getProperty _ _ response => .remember (fun _ => some response) .done
    | _ => .done
  permits _ _ := false

/-- Sends the tree that was kept, with a name in it. -/
def sendKept : Script (Option Property) :=
  .recall fun
    | some response => .tell (.property (response.add "name" (.string "Lamp")))
    | none => .done

/-- The trees that are kept are those in the memory. -/
def kept : Discipline (Option Property) :=
  .making (fun memory tree => memory = some tree) fun _ _ => False

theorem keeping_obeys : keeping.Obeys kept := by
  intro calls callback
  cases callback with
  | getProperty dsuid query response =>
    refine ⟨fun memory _ => ⟨?_, nofun⟩, trivial⟩
    intro tree htree
    obtain rfl := Option.some.inj htree
    exact .given ⟨_, List.mem_cons_self, List.mem_cons_of_mem _ List.mem_cons_self⟩
  | _ => trivial

theorem sendKept_obeys (calls : List Callback) : sendKept.Obeys kept calls := by
  intro memory hmemory
  cases memory with
  | none => trivial
  | some response => exact ⟨.add (hmemory.1 response rfl) _ _, fun _ => trivial⟩

/-- A device is asked for its properties, and answers when the peer has long gone on. -/
theorem answersRequests_run_later :
    ∃ e : Endpoint (Option Property), start keeping none "own" .default none 0 = .ready e ∧
      ∃ inputs, (e.run inputs).session.journal.filterMap Event.message? =
          [⟨7, .propertyResponse [⟨some "name", some (.string "Lamp"), []⟩]⟩,
            .notification (.pong "own"), ⟨1, .responseHello "own"⟩] ∧
        (e.run inputs).AnswersRequests Config.default.frameLimit := by
  have h : start keeping none "own" .default none 0 =
      .ready ⟨keeping, Session.new "own" .default none 0, none, false⟩ := rfl
  refine ⟨_, h, [.arrive (.fresh "peer"), .work,
    .deliver "peer" (frameOf ⟨1, .requestHello ⟨some "P", some 2⟩⟩), .work,
    .deliver "peer" (frameOf ⟨7, .getProperty (some "D") []⟩), .work,
    .deliver "peer" (frameOf ⟨0, .ping (some "own")⟩), .work, .perform sendKept],
    by decide +kernel, ?_⟩
  refine answersRequests_run h keeping_obeys ⟨nofun, nofun⟩ (performs_of_forall ?_ _)
  intro script hscript calls
  obtain rfl : script = sendKept := by simpa using hscript
  exact sendKept_obeys calls

end Endpoint

end Vdc
