import Vdc.Proofs.Message.Length
import Vdc.Proofs.Message.Normal
import Vdc.Proofs.Property.Rows
import Vdc.Proofs.Property.Tree
import Vdc.Proofs.Session.Handshake
import Vdc.Proofs.Session.Output
import Vdc.Proofs.Session.Sending

/-!
# Rows that are sent

Rows are sent whole or not at all: `Session.sendsRows` tells what becomes of them on a connection
that takes bytes, for whatever rows and in whatever session. Sound rows with a tag make one message,
which is read back as their tree. Unsound rows make no message of their own; the request that they
answer gets one error response, and the caller learns what is wrong with them.

The error response has to fit into a frame like everything else. It is short, so only a limit below
200 bytes can keep it back, and then nothing at all is written and it is this failure that the
caller learns of, `Endpoint.rowsLost_run`.

That a message of rows is read back needs a bound on how deep it nests. Rows have one whatever is
added to them, since they hold leaves only, `Rows.MadeFrom.isLeaf`.
-/

namespace Vdc

/-! ## How deep rows nest -/

namespace Node

theorem fieldNesting_name (name : Option String) : Json.fieldNesting (name.map .text) = 0 :=
  Payload.fieldNesting_map (fun _ => rfl) name

theorem nesting_leaf_le (name : Option String) (value : Value) :
    (leaf name value).toElement.toJson.nesting ≤ 3 := by
  have hvalue : value.toJson.nesting ≤ 2 := by
    cases value with
    | bytes data => exact Nat.le_of_eq (Value.nesting_toJson_bytes data)
    | _ => exact Nat.le_succ 1
  rw [toElement, Element.toJson_eq]
  refine Json.nesting_record_le (n := 2) ?_
  simp only [List.forall_mem_cons, fieldNesting_name]
  exact ⟨Nat.zero_le 2, hvalue, Nat.zero_le 2, List.forall_mem_nil _⟩

/-- A list of nodes nests one deeper than the nodes in it. -/
theorem fieldNesting_field_le {nodes : List Node} {n : Nat}
    (h : ∀ node ∈ nodes, node.toElement.toJson.nesting ≤ n) :
    Json.fieldNesting (Element.field (toElements nodes)) ≤ 1 + n := by
  have hitems : Json.nestingItems (Element.listToJson (toElements nodes)) ≤ n := by
    induction nodes with
    | nil => exact Nat.zero_le n
    | cons node rest ih =>
      obtain ⟨hnode, hrest⟩ := List.forall_mem_cons.1 h
      rw [toElements, Element.listToJson, Json.nestingItems]
      exact Nat.max_le.2 ⟨hnode, ih hrest⟩
  cases nodes with
  | nil => exact Nat.zero_le (1 + n)
  | cons node rest => exact Nat.add_le_add_left hitems 1

/-- A branch nests two deeper than the nodes in it. -/
theorem nesting_branch_le {name : Option String} {children : List Node} {n : Nat}
    (h : ∀ child ∈ children, child.toElement.toJson.nesting ≤ n) :
    (branch name children).toElement.toJson.nesting ≤ n + 2 := by
  have hchildren := fieldNesting_field_le h
  rw [toElement, Element.toJson_eq]
  refine Nat.le_trans (Json.nesting_record_le (n := 1 + n) ?_) (by omega)
  simp only [List.forall_mem_cons, fieldNesting_name]
  exact ⟨Nat.zero_le _, Nat.zero_le _, hchildren, List.forall_mem_nil _⟩

end Node

/-- The message of a tree nests three deeper than its nodes. -/
theorem Property.nesting_message_le {tree : Property} {n : Nat}
    (h : ∀ node ∈ tree.nodes, node.toElement.toJson.nesting ≤ n) :
    tree.message.toJson.nesting ≤ n + 3 := by
  have hproperties : Json.fieldNesting (Payload.elementsField tree.toElements) ≤ 1 + n := by
    rw [Payload.elementsField_eq_field]
    exact Node.fieldNesting_field_le h
  have hpayload : tree.message.payload.toJson.nesting ≤
      1 + max 1 (Json.fieldNesting (Payload.elementsField tree.toElements)) :=
    Payload.nesting_toJson_le _
  rw [Message.nesting_toJson]
  omega

namespace Rows

variable {given : Property → Prop} {rows : Rows}

/-- The message of a tree of rows nests within the limit. -/
theorem MadeFrom.nesting_message_le (h : rows.MadeFrom given) {tree : Property}
    (htree : rows.toProperty? = .ok tree) : tree.message.toJson.nesting ≤ Json.maxNesting := by
  have hnodes : ∀ node ∈ tree.nodes, node.toElement.toJson.nesting ≤ 7 := by
    unfold toProperty? at htree
    split at htree
    · cases htree
    · obtain rfl := Except.ok.inj htree
      refine List.forall_mem_singleton.2 (Node.nesting_branch_le (n := 5) fun child hchild => ?_)
      obtain ⟨row, hrow, hchild⟩ := List.mem_filterMap.1 hchild
      obtain ⟨nodes, rfl, rfl⟩ := Option.map_eq_some_iff.1 hchild
      refine Node.nesting_branch_le (n := 3) fun node hnode => ?_
      rw [rows_eq_map] at hrow
      obtain ⟨index, -, hrow⟩ := List.mem_map.1 hrow
      obtain ⟨name, value, rfl⟩ := h.isLeaf hrow node hnode
      exact Node.nesting_leaf_le name value
  exact Nat.le_trans (Property.nesting_message_le hnodes) (by decide)

/-- Rows are sound and become a tree with their tag, or they are refused for their structure. -/
theorem toProperty?_cases (rows : Rows) :
    (rows.check = .ok () ∧ ∃ tree, rows.toProperty? = .ok tree ∧ tree.requestId = rows.requestId) ∨
      ∃ fault, rows.check = .error fault ∧ rows.toProperty? = .error (.structural fault) := by
  cases hcheck : rows.check with
  | ok =>
    refine .inl ⟨rfl, ?_⟩
    simp only [toProperty?, hcheck]
    exact ⟨_, rfl, rfl⟩
  | error fault =>
    refine .inr ⟨fault, rfl, ?_⟩
    simp only [toProperty?, hcheck]

/-- The error response to the request that some rows answer. -/
def refusal (rows : Rows) : Message := .genericResponse rows.requestId .noContentForArray

theorem nesting_refusal_le (rows : Rows) : rows.refusal.toJson.nesting ≤ Json.maxNesting := by
  have hpayload : rows.refusal.payload.Normal := Payload.normal_of_plain rfl rfl
  have hnesting := hpayload.nesting_lt
  rw [Message.nesting_toJson]
  omega

end Rows

/-! ## What sending rows comes to -/

namespace Session

variable {σ : Type} {s : Session σ} {link : Link} {m : Message} {payload : List UInt8}

/-- A payload is as short as frames of a session have to be. -/
def Fits (s : Session σ) (payload : List UInt8) : Prop :=
  payload.length ≤ s.transport.frameLimit ∧ payload.length ≤ Frame.maxLength

/-- The session after the frame of a message was written on the held connection. -/
def wrote (s : Session σ) (link : Link) (frame : List UInt8) (m : Message) : Session σ :=
  { s with transport := { s.transport with
    held := some { link with written := link.written ++ frame } } }.note (.sent m)

/-- A message that fits is written whole. -/
theorem transmit_of_fits (hheld : s.transport.held = some link) (hwritable : link.writable = true)
    (hencode : m.encode = .ok payload) (hfits : s.Fits payload) :
    ∃ frame, Frame.serialize s.transport.frameLimit payload = .ok frame ∧
      s.transmit m = .ok (s.wrote link frame m) := by
  obtain ⟨frame, hframe⟩ := Frame.exists_serialize_iff.2 hfits
  have hwrite : link.write frame = .ok { link with written := link.written ++ frame } :=
    if_pos hwritable
  refine ⟨frame, hframe, ?_⟩
  simp only [transmit, hencode, bind, Except.bind, Transport.writeFrame, hheld, hframe, hwrite]
  rfl

/-- One that does not fit is not written. -/
theorem transmit_of_not_fits (hheld : s.transport.held = some link)
    (hencode : m.encode = .ok payload) (hfits : ¬ s.Fits payload) : s.transmit m =
      .error (.protocol (.payloadTooLong payload.length s.transport.frameLimit)) := by
  have hlong : s.transport.frameLimit < payload.length ∨ Frame.maxLength < payload.length := by
    unfold Fits at hfits
    omega
  simp only [transmit, hencode, bind, Except.bind, Transport.writeFrame, hheld, Frame.serialize,
    if_pos hlong]

/-- Of the transport only what was written on the held connection changes. -/
theorem kept_of_transmit {s' : Session σ} (hheld : s.transport.held = some link)
    (h : s.transmit m = .ok s') : s'.state = s.state ∧ s'.pending = s.pending ∧
      s'.lastId = s.lastId ∧ ∃ more, s'.transport = { s.transport with
        held := some { link with written := link.written ++ more } } := by
  obtain ⟨payload, transport, -, hwrite, rfl⟩ := transmit_eq_ok h
  obtain ⟨frame, link', -, hheld', -, rfl⟩ := Transport.writeFrame_eq_ok hwrite
  obtain rfl := Option.some.inj (hheld'.symm.trans hheld)
  exact ⟨rfl, rfl, rfl, frame, rfl⟩

variable {given : Property → Prop} {rows : Rows}

/-- What sending rows comes to on a connection that takes bytes. -/
structure SendsRows (s : Session σ) (link : Link) (rows : Rows) : Prop where
  /-- Rows are sound and become a tree with their tag, or they are refused for their structure. -/
  cases : (rows.check = .ok () ∧
      ∃ tree, rows.toProperty? = .ok tree ∧ tree.requestId = rows.requestId) ∨
    ∃ fault, rows.check = .error fault ∧ rows.toProperty? = .error (.structural fault)
  /-- The tree of sound rows with a tag is sent in one message, which is read back as that tree. -/
  whole : ∀ tree payload, rows.toProperty? = .ok tree → rows.requestId ≠ reservedId →
    tree.message.encode = .ok payload → s.Fits payload →
      (∃ frame, Frame.serialize s.transport.frameLimit payload = .ok frame ∧
        s.send (.rows rows) = (.ok (), s.wrote link frame tree.message)) ∧
      Message.decode payload = .ok ⟨rows.requestId, .propertyResponse tree.toElements⟩ ∧
      Property.ofElements? tree.toElements = .ok ⟨reservedId, tree.nodes⟩
  /-- If the message has no text, or one that does not fit, nothing is written. -/
  unsent : ∀ tree, rows.toProperty? = .ok tree → rows.requestId ≠ reservedId →
    (∀ e, tree.message.encode = .error e → s.send (.rows rows) = (.error e, s)) ∧
    ∀ payload, tree.message.encode = .ok payload → ¬ s.Fits payload → s.send (.rows rows) =
      (.error (.protocol (.payloadTooLong payload.length s.transport.frameLimit)), s)
  /-- The request that unsound rows answer gets one error response. Nothing is written if that does
  not fit, and then this is the error. -/
  refused : ∀ fault, rows.check = .error fault → rows.requestId ≠ reservedId →
    ∃ payload, rows.refusal.encode = .ok payload ∧ payload.length ≤ 200 ∧
      Message.decode payload = .ok rows.refusal ∧
      (s.Fits payload → ∃ frame, Frame.serialize s.transport.frameLimit payload = .ok frame ∧
        s.send (.rows rows) = (.error (.structural fault), s.wrote link frame rows.refusal)) ∧
      (¬ s.Fits payload → s.send (.rows rows) =
        (.error (.protocol (.payloadTooLong payload.length s.transport.frameLimit)), s))
  /-- Rows without a tag answer no request, and nothing is written. -/
  untagged : rows.requestId = reservedId →
    (∀ tree, rows.toProperty? = .ok tree →
      s.send (.rows rows) = (.error (.parameter .untaggedTree), s)) ∧
    ∀ fault, rows.check = .error fault → s.send (.rows rows) = (.error (.structural fault), s)
  /-- Nothing changes but what was written on the connection. -/
  kept : ∀ result s', s.send (.rows rows) = (result, s') →
    s'.state = s.state ∧ s'.pending = s.pending ∧ s'.lastId = s.lastId ∧
      ∃ more, s'.transport = { s.transport with
        held := some { link with written := link.written ++ more } }

theorem sendsRows (hheld : s.transport.held = some link) (hwritable : link.writable = true)
    (hrows : rows.MadeFrom given) : s.SendsRows link rows := by
  have hsound : ∀ {tree}, rows.toProperty? = .ok tree → rows.requestId ≠ reservedId →
      s.send (.rows rows) = s.attempt (s.transmit tree.message) := by
    intro tree htree htag
    rw [← Rows.requestId_toProperty? htree] at htag
    simp only [send, sendRows, htree, transmitProperty, if_neg htag]
    rfl
  have hunsound : ∀ {fault}, rows.check = .error fault →
      rows.toProperty? = .error (.structural fault) := by
    intro fault hcheck
    simp only [Rows.toProperty?, hcheck]
  refine ⟨rows.toProperty?_cases, ?_, ?_, ?_, ?_, ?_⟩
  · intro tree payload htree htag hencode hfits
    refine ⟨?_, ?_, tree.ofElements?_toElements⟩
    · obtain ⟨frame, hframe, hsent⟩ := transmit_of_fits hheld hwritable hencode hfits
      exact ⟨frame, hframe, by rw [hsound htree htag, hsent, attempt]⟩
    · have hdecode := Message.decode_of_encode hencode (hrows.nesting_message_le htree)
      rwa [Property.message, Rows.requestId_toProperty? htree] at hdecode
  · intro tree htree htag
    rw [hsound htree htag]
    refine ⟨fun e hencode => ?_, fun payload hencode hfits => ?_⟩
    · simp only [transmit, hencode, bind, Except.bind, attempt]
    · rw [transmit_of_not_fits hheld hencode hfits, attempt]
  · intro fault hcheck htag
    have hsent {s'} (ht : s.transmit rows.refusal = .ok s') :
        s.send (.rows rows) = (.error (.structural fault), s') := by
      rw [Rows.refusal] at ht
      simp only [send, sendRows, hunsound hcheck, if_neg htag, ht]
    have hfailed {failure} (ht : s.transmit rows.refusal = .error failure) :
        s.send (.rows rows) = (.error failure, s) := by
      rw [Rows.refusal] at ht
      simp only [send, sendRows, hunsound hcheck, if_neg htag, ht]
    have hfinite : ∀ d ∈ rows.refusal.doubles, d.isFinite = true := List.forall_mem_nil _
    have hencode := Message.encode_eq_ok hfinite
    refine ⟨_, hencode, Message.length_genericResponse_le htag _, ?_, fun hfits => ?_,
      fun hfits => ?_⟩
    · exact Message.decode_of_encode hencode rows.nesting_refusal_le
    · obtain ⟨frame, hframe, htransmit⟩ := transmit_of_fits hheld hwritable hencode hfits
      exact ⟨frame, hframe, hsent htransmit⟩
    · exact hfailed (transmit_of_not_fits hheld hencode hfits)
  · intro htag
    refine ⟨fun tree htree => ?_, fun fault hcheck => ?_⟩
    · have htree' := (Rows.requestId_toProperty? htree).trans htag
      simp only [send, sendRows, htree, transmitProperty, if_pos htree', attempt]
    · simp only [send, sendRows, hunsound hcheck, if_pos htag]
  · intro result s' hsend
    have hunchanged : s.transport = { s.transport with
        held := some { link with written := link.written ++ [] } } := by
      rw [List.append_nil, ← hheld]
    rcases s.send_result (.rows rows) with ⟨m, sent, -, ht, h⟩ | ⟨e, h⟩ |
      ⟨refused, e, sent, -, -, -, ht, h⟩
    · obtain rfl : sent = s' := congrArg Prod.snd (h.symm.trans hsend)
      exact kept_of_transmit hheld ht
    · obtain rfl : s = s' := congrArg Prod.snd (h.symm.trans hsend)
      exact ⟨rfl, rfl, rfl, [], hunchanged⟩
    · obtain rfl : sent = s' := congrArg Prod.snd (h.symm.trans hsend)
      exact kept_of_transmit hheld ht

/-- Two rows that answer a request. -/
def answerRows : Rows :=
  ((Rows.forResponse (.forRequest 7) "scenes").add 1 "group" (.uint 2)).add 0 "group" (.uint 1)

/-- They are sent to a peer that is connected. -/
theorem sendsRows_answer : ∃ s : Session Unit, ∃ link, s.transport.held = some link ∧
    link.writable = true ∧ s.SendsRows link answerRows ∧ ∃ frame, s.send (.rows answerRows) =
      (.ok (), s.wrote link frame ⟨7, .propertyResponse [⟨some "scenes", none,
        [⟨none, none, [⟨some "group", some (.uint 1), []⟩]⟩,
          ⟨none, none, [⟨some "group", some (.uint 2), []⟩]⟩]⟩]⟩) := by
  have hmade : answerRows.MadeFrom (Eq (.forRequest 7)) :=
    .add (.add (.forResponse (.given rfl) "scenes") 1 _ _) 0 _ _
  let s : Session Unit := { Session.new "own" .default () 0 with
    transport := { Transport.listen Config.default.frameLimit 0 with held := some (.fresh "peer") }
    state := .active "P" }
  have hsends : s.SendsRows (.fresh "peer") answerRows := sendsRows rfl rfl hmade
  refine ⟨s, .fresh "peer", rfl, rfl, hsends, ?_⟩
  obtain ⟨⟨frame, -, hsent⟩, -⟩ :=
    hsends.whole _ _ rfl nofun rfl ⟨by decide +kernel, by decide +kernel⟩
  exact ⟨frame, hsent⟩

end Session

namespace Endpoint

/-- Rows of which one is missing. -/
def gappedRows (response : Property) : Rows :=
  ((Rows.forResponse response "scenes").add 0 "group" (.uint 1)).add 2 "group" (.uint 3)

/-- An application that answers every query with rows of which one is missing, and keeps how that
went. -/
def gapped : Application (Option (Except Error Unit)) where
  react
    | .getProperty _ _ response =>
      .send (.rows (gappedRows response)) fun result => .remember (fun _ => some result) .done
    | _ => .done
  permits _ _ := false

/-- Below a limit of frames for which the error response is too long, the request that unsound rows
answer gets none, and what the application learns of is the limit. -/
theorem rowsLost_run :
    ∃ e : Endpoint (Option (Except Error Unit)),
      start gapped none "own" { Config.default with frameLimit := 80 } none 0 = .ready e ∧
      ∃ inputs, (e.run inputs).session.transport.held.map Link.writable = some true ∧
        (gappedRows (.forRequest 7)).check = .error (.missing 1) ∧
        (e.run inputs).session.memory = some (.error (.protocol (.payloadTooLong 111 80))) ∧
        (e.run inputs).session.journal.filterMap Event.message? = [⟨1, .responseHello "own"⟩] := by
  refine ⟨_, rfl, [.arrive (.fresh "peer"), .work,
    .deliver "peer" (frameOf ⟨1, .requestHello ⟨some "P", some 2⟩⟩), .work,
    .deliver "peer" (frameOf ⟨7, .getProperty (some "D") []⟩), .work], ?_⟩
  decide +kernel

end Endpoint

end Vdc
