import Vdc.Proofs.Json.Renaming
import Vdc.Proofs.Message.Normal
import Vdc.Session.Directive

/-!
# The id of what is no message

A payload that cannot be decoded is answered under the id that peeking finds in it. Decoding and
peeking look for the id in different ways: the one refuses a text in which the field is repeated,
the other takes the last. `peeksId` says that they agree wherever the first finds one, since a field
that is not repeated is both the first and the last, `peekId?_of_idIn?`.

So a payload of an unknown kind is answered under the id that it would have been decoded with. The
last part of `peeksId` makes one of every message: another name is put in the place of its kind.
-/

namespace Vdc

namespace Payload

/-- A payload that was read as one of a kind is of that kind. -/
theorem kind_of_ofJson? {kind : MessageKind} {json : Json} {payload : Payload}
    (h : ofJson? kind json = some payload) : payload.kind = kind := by
  cases kind with
  | responseHello | pong | announceContainer | vanish | identifyDevice =>
    obtain ⟨dsuid, rfl⟩ := exists_of_target? h
    rfl
  | ping | bye | remove =>
    obtain ⟨dsuid, rfl⟩ := exists_of_optionalTarget? h
    rfl
  | saveScene | undoScene | setLocalPriority | callMinScene =>
    obtain ⟨notice, rfl⟩ := exists_of_scene? h
    rfl
  | propertyResponse =>
    simp only [ofJson?] at h
    split at h
    · obtain ⟨elements, -, rfl⟩ := Option.map_eq_some_iff.1 h
      rfl
    · cases h
  | genericResponse | requestHello | announceDevice | identify | pushProperty | getProperty
  | setProperty =>
    simp only [ofJson?, elementsOf?] at h
    split at h
    · simp only [Option.bind_eq_bind, Option.bind_eq_some_iff, Option.pure_def,
        Option.some.injEq] at h
      obtain ⟨_, -, _, -, rfl⟩ := h
      rfl
    · cases h
  | callScene | setControlValue =>
    simp only [ofJson?] at h
    split at h
    · simp only [Option.bind_eq_bind, Option.bind_eq_some_iff, Option.pure_def,
        Option.some.injEq] at h
      obtain ⟨_, -, _, -, _, -, _, -, rfl⟩ := h
      rfl
    · cases h
  | setChannelValue =>
    simp only [ofJson?] at h
    split at h
    · simp only [Option.bind_eq_bind, Option.bind_eq_some_iff, Option.pure_def,
        Option.some.injEq] at h
      obtain ⟨_, -, _, -, _, -, _, -, _, -, rfl⟩ := h
      rfl
    · cases h

end Payload

namespace Message

variable {bytes bytes' : List UInt8} {entries : List (String × Json)} {id : RequestId} {m : Message}

/-! ## The two readers of an id -/

/-- The id that a message with these entries is decoded with. -/
def idIn? (entries : List (String × Json)) : Option RequestId :=
  (Json.slot? entries "message_id").bind (Json.defaulted? reservedId Json.uint32?)

/-- The kind of a payload is the name of an entry. -/
theorem name_mem_of_payloadField? {kind : MessageKind} {json : Json}
    (h : payloadField? entries = some (kind, json)) : kind.name ∈ entries.map (·.1) := by
  obtain ⟨entry, hentry, hfield⟩ := List.exists_of_findSome?_eq_some h
  obtain ⟨found, hfound, heq⟩ := Option.map_eq_some_iff.1 hfield
  obtain rfl : found = kind := (Prod.mk.inj heq).1
  obtain ⟨hname, -⟩ := List.find?_eq_some_iff_append.1 hfound
  exact List.mem_map.2 ⟨entry, hentry, (beq_iff_eq.1 hname).symm⟩

/-- Without an entry of a known kind nothing is decoded. -/
theorem decode_of_payloadField? (hread : Json.read bytes = some (.object entries))
    (h : payloadField? entries = none) : decode bytes = .error (.protocol .malformed) := by
  have hnone : ofJson? (.object entries) = none := by simp [ofJson?, h]
  rw [decode, hread, Option.bind_some, hnone]

theorem peekId?_of_read (hread : Json.read bytes = some (.object entries)) : peekId? bytes =
    (entries.filter (·.1 == "message_id")).getLast?.bind fun entry => Json.uint32? entry.2 := by
  rw [peekId?, hread]
  simp only
  rw [List.findRev?_eq_find?_reverse, ← List.head?_filter, List.filter_reverse,
    List.head?_reverse]

/-- Peeking finds the id that a text is decoded with, unless it is the reserved one for lack of a
field. -/
theorem peekId?_of_idIn? (hread : Json.read bytes = some (.object entries))
    (hid : idIn? entries = some id) :
    ("message_id" ∈ entries.map (·.1) ∧ peekId? bytes = some id) ∨
      ("message_id" ∉ entries.map (·.1) ∧ peekId? bytes = none ∧ id = reservedId) := by
  rw [peekId?_of_read hread]
  obtain ⟨slot, hslot, hid⟩ := Option.bind_eq_some_iff.1 hid
  unfold Json.slot? at hslot
  split at hslot
  · next hfilter =>
    obtain rfl := Option.some.inj hslot
    rw [hfilter]
    refine .inr ⟨fun hmem => ?_, rfl, (Option.some.inj hid).symm⟩
    obtain ⟨entry, hentry, hname⟩ := List.mem_map.1 hmem
    exact List.filter_eq_nil_iff.1 hfilter entry hentry (beq_iff_eq.2 hname)
  · next entry hfilter =>
    obtain rfl := Option.some.inj hslot
    rw [hfilter]
    have hentry : entry ∈ entries.filter (·.1 == "message_id") :=
      hfilter ▸ List.mem_singleton_self _
    obtain ⟨hmem, hname⟩ := List.mem_filter.1 hentry
    exact .inl ⟨List.mem_map.2 ⟨entry, hmem, beq_iff_eq.1 hname⟩, hid⟩
  · cases hslot

/-- What is not decoded is refused under the id that it would have been decoded with. -/
theorem ofPayload_of_idIn? {e : Error} (hread : Json.read bytes = some (.object entries))
    (hid : idIn? entries = some id) (h : decode bytes = .error e) (own : String)
    (state : SessionState) : Directive.ofPayload own state bytes = .refusal id .messageUnknown := by
  have hbytes : bytes.isEmpty = false := by
    cases bytes with
    | nil => cases hread
    | cons => rfl
  have hpeek : (peekId? bytes).getD reservedId = id := by
    rcases peekId?_of_idIn? hread hid with ⟨-, hpeek⟩ | ⟨-, hpeek, rfl⟩ <;> rw [hpeek] <;> rfl
  simp [Directive.ofPayload, hbytes, h, hpeek]

/-! ## Another kind -/

/-- The names in an object that are kinds of messages. -/
def kindNames (entries : List (String × Json)) : List String :=
  (entries.map (·.1)).filter fun name => (MessageKind.ofName? name).isSome

theorem payloadField?_eq_none_iff : payloadField? entries = none ↔ kindNames entries = [] := by
  simp [payloadField?, kindNames]

section

variable {old new : String}

/-- Names that are not the id's make no difference to it. -/
theorem filter_rename (front back : List (String × Json)) (value : Json)
    (hold : old ≠ "message_id") (hnew : new ≠ "message_id") :
    (front ++ (old, value) :: back).filter (·.1 == "message_id") =
      (front ++ (new, value) :: back).filter (·.1 == "message_id") := by
  simp [hold, hnew]

/-- If no other name is a kind, none is when that one is renamed to none. -/
theorem kindNames_rename {front back : List (String × Json)} {value : Json}
    (hold : (MessageKind.ofName? old).isSome) (hnew : MessageKind.ofName? new = none)
    (h : kindNames (front ++ (old, value) :: back) = [old]) :
    kindNames (front ++ (new, value) :: back) = [] := by
  have hsplit : kindNames front ++ old :: kindNames back = [old] := by
    simpa [kindNames, hold] using h
  have hjoin : kindNames (front ++ (new, value) :: back) = kindNames front ++ kindNames back := by
    simp [kindNames, hnew]
  rcases List.append_eq_singleton_iff.1 hsplit with ⟨hfront, hback⟩ | ⟨-, hback⟩
  · rw [hjoin, hfront, (List.cons.inj hback).2]
    rfl
  · cases hback

end

/-- A message whose kind is renamed is not decoded, and has the id that it had. -/
theorem of_renamed {name : String} (h : decode bytes = .ok m)
    (hread : Json.read bytes = some (.object entries))
    (hkind : kindNames entries = [m.payload.kind.name]) (hname : MessageKind.ofName? name = none)
    (hid : name ≠ "message_id") (hrenamed : Json.Renamed m.payload.kind.name name bytes bytes') :
    ∃ entries', Json.read bytes' = some (.object entries') ∧
      decode bytes' = .error (.protocol .malformed) ∧ peekId? bytes' = peekId? bytes ∧
      idIn? entries' = some m.id := by
  obtain ⟨front, value, back, rfl, hread'⟩ := hrenamed.read_eq hread
  have hfilter := filter_rename front back value (kind_name_ne m.payload.kind).symm hid
  refine ⟨_, hread', ?_, ?_, ?_⟩
  · refine decode_of_payloadField? hread' (payloadField?_eq_none_iff.2 ?_)
    exact kindNames_rename (by simp) hname hkind
  · rw [peekId?_of_read hread', peekId?_of_read hread, hfilter]
  · obtain ⟨entries, _, _, hread'', hidIn, -⟩ := exists_of_decode h
    obtain rfl : front ++ (m.payload.kind.name, value) :: back = entries :=
      Json.object.inj (Option.some.inj (hread.symm.trans hread''))
    rwa [idIn?, Json.slot?, ← hfilter]

/-! ## Agreement -/

/-- Peeking finds in a text the id that decoding does. -/
structure PeeksId (bytes : List UInt8) : Prop where
  /-- The id of a message is found, or is the reserved one and there is none to be found. -/
  message : ∀ m, decode bytes = .ok m → ∃ entries, Json.read bytes = some (.object entries) ∧
    (("message_id" ∈ entries.map (·.1) ∧ peekId? bytes = some m.id) ∨
      ("message_id" ∉ entries.map (·.1) ∧ peekId? bytes = none ∧ m.id = reservedId))
  /-- An object without an entry of a known kind is no message. -/
  unknown : ∀ entries, Json.read bytes = some (.object entries) → kindNames entries = [] →
    decode bytes = .error (.protocol .malformed)
  /-- Such an object, or any other that is no message, is answered under the id that it would
  have. -/
  answered : ∀ entries id e, Json.read bytes = some (.object entries) → idIn? entries = some id →
    decode bytes = .error e → ∀ own state,
      Directive.ofPayload own state bytes = .refusal id .messageUnknown
  /-- Any other name can be put in the place of the kind of a message, -/
  renamable : ∀ m, decode bytes = .ok m → ∀ name, ∃ bytes',
    Json.Renamed m.payload.kind.name name bytes bytes'
  /-- and if that is no kind, and none was beside it, the text is no message any more but keeps its
  id. -/
  renamed : ∀ m entries, decode bytes = .ok m → Json.read bytes = some (.object entries) →
    kindNames entries = [m.payload.kind.name] →
    ∀ name bytes', MessageKind.ofName? name = none → name ≠ "message_id" →
      Json.Renamed m.payload.kind.name name bytes bytes' →
      decode bytes' = .error (.protocol .malformed) ∧ peekId? bytes' = peekId? bytes ∧
        ∀ own state, Directive.ofPayload own state bytes' = .refusal m.id .messageUnknown

/-- On every text the two readers of an id agree. -/
theorem peeksId (bytes : List UInt8) : PeeksId bytes where
  message m h := by
    obtain ⟨entries, _, _, hread, hid, -⟩ := exists_of_decode h
    exact ⟨entries, hread, peekId?_of_idIn? hread hid⟩
  unknown entries hread hkind :=
    decode_of_payloadField? hread (payloadField?_eq_none_iff.2 hkind)
  answered entries id e hread hid h := ofPayload_of_idIn? hread hid h
  renamable m h name := by
    obtain ⟨entries, kind, _, hread, -, hfield, hpayload⟩ := exists_of_decode h
    obtain rfl := Payload.kind_of_ofJson? hpayload
    exact Json.exists_renamed hread (name_mem_of_payloadField? hfield) name
  renamed m entries h hread hkind name bytes' hname hid hrenamed := by
    obtain ⟨entries', hread', hdecode, hpeek, hidIn⟩ :=
      of_renamed h hread hkind hname hid hrenamed
    exact ⟨hdecode, hpeek, ofPayload_of_idIn? hread' hidIn hdecode⟩

/-- An id under an escaped name, after an entry that is looked past, and a kind that is none. -/
example :
    let bytes := Utf8.encode
      "\x7b \"note\": [\"message_id\"], \"message\\u005fid\": 7, \"vdsm_send_pong\": \x7b\x7d \x7d"
    decode bytes = .error (.protocol .malformed) ∧ peekId? bytes = some 7 := by
  decide +kernel

end Message

end Vdc
