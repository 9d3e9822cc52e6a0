import Mathlib.Data.List.Perm.Basic
import Mathlib.Logic.Relation
import Vdc.Proofs.Message.Peek

/-!
# Unknown entries

A message may carry more than is read of it. `Site.Edit` is one change that makes no difference to
what is read: an entry of an unknown name comes into an object, or the entries of an object change
their order, in the message itself, in its payload or in an element of a property, at whatever
depth. `Message.readsAlike` says that whatever text the message has after some such changes, it is
decoded as before.

Of the entries of an object only those under the known names are looked at, and each of these only
if there is no other of its name, so neither the unknown ones nor the order matter,
`Json.slot?_insert` and `Json.slot?_of_perm`. A payload is not found by its name but as the first
that has the name of some kind. It is the same one after the change because it is the only one.

The elements of a property are read by recursion on a budget of nesting, and the proof follows it.
What is inside unknown entries takes nothing of the budget; only the text as a whole must not nest
deeper than texts may.

An unknown entry is looked past, but it is read. Half a surrogate pair in it, which no string can
hold, keeps the message from being decoded: `Message.refused_surrogate`.
-/

namespace Vdc

namespace Json

variable {entries entries' before after : List (String × Json)} {key : String}

/-! ## Entries under a name -/

/-- What stands under a name does not depend on the order of the entries. -/
theorem slot?_of_perm (h : entries.Perm entries') (key : String) :
    slot? entries' key = slot? entries key := by
  have hfilter := h.filter (·.1 == key)
  unfold slot?
  cases hnamed : entries.filter (·.1 == key) with
  | nil =>
    rw [hnamed, List.nil_perm] at hfilter
    rw [hfilter]
  | cons first rest =>
    rw [hnamed] at hfilter
    cases rest with
    | nil =>
      rw [List.singleton_perm] at hfilter
      rw [← hfilter]
    | cons second rest =>
      -- Neither of them has one entry of the name.
      have hlength := hfilter.length_eq
      split
      · next hnil => simp [hnil] at hlength
      · next hsingle => simp [hsingle] at hlength
      · rfl

/-- An entry of another name makes no difference. -/
theorem slot?_insert {entry : String × Json} (h : entry.1 ≠ key) :
    slot? (before ++ entry :: after) key = slot? (before ++ after) key := by
  simp [slot?, h]

/-- Nor does what stands under another name. -/
theorem slot?_replace_of_ne {other : String} (json json' : Json) (h : other ≠ key) :
    slot? (before ++ (other, json') :: after) key =
      slot? (before ++ (other, json) :: after) key := by
  rw [slot?_insert h, slot?_insert h]

/-- What stands under a name is what is put there. -/
theorem slot?_replace_self {json : Json} {slot : Option Json} (json' : Json)
    (h : slot? (before ++ (key, json) :: after) key = some slot) :
    slot = some json ∧ slot? (before ++ (key, json') :: after) key = some (some json') := by
  have hsplit (json : Json) : (before ++ (key, json) :: after).filter (·.1 == key) =
      before.filter (·.1 == key) ++ (key, json) :: after.filter (·.1 == key) := by
    simp
  unfold slot? at h ⊢
  rw [hsplit] at h ⊢
  cases hbefore : before.filter (·.1 == key) with
  | nil =>
    cases hafter : after.filter (·.1 == key) with
    | nil =>
      rw [hbefore, hafter] at h
      exact ⟨(Option.some.inj h).symm, rfl⟩
    | cons next rest =>
      rw [hbefore, hafter] at h
      cases h
  | cons first rest =>
    rw [hbefore] at h
    cases rest <;> cases h

theorem entrySlots?_congr {names : List String}
    (h : ∀ key ∈ names, slot? entries' key = slot? entries key) :
    entrySlots? names entries' = entrySlots? names entries := by
  induction names with
  | nil => rfl
  | cons name rest ih =>
    obtain ⟨hname, hrest⟩ := List.forall_mem_cons.1 h
    have hslots : rest.mapM (slot? entries') = rest.mapM (slot? entries) := ih hrest
    rw [entrySlots?, entrySlots?, List.mapM_cons, List.mapM_cons, hname, hslots]

theorem entrySlots?_append_singleton {names : List String} {name : String}
    {slots : List (Option Json)} : entrySlots? (names ++ [name]) entries = some slots ↔
      ∃ others slot, entrySlots? names entries = some others ∧ slot? entries name = some slot ∧
        slots = others ++ [slot] := by
  simp only [entrySlots?, List.mapM_append, List.mapM_cons, List.mapM_nil, Option.bind_eq_bind,
    Option.pure_def, Option.bind_eq_some_iff, Option.some.injEq]
  constructor
  · rintro ⟨others, hothers, _, ⟨slot, hslot, _, rfl, rfl⟩, rfl⟩
    exact ⟨others, slot, hothers, hslot, rfl⟩
  · rintro ⟨others, slot, hothers, hslot, rfl⟩
    exact ⟨others, hothers, _, ⟨slot, hslot, _, rfl, rfl⟩, rfl⟩

end Json

/-! ## Sites -/

/-- Where entries of unknown names are looked past. -/
inductive Site where
  | message
  | payload (kind : MessageKind)
  /-- A list of elements. -/
  | elements
  | element
deriving DecidableEq

namespace Site

/-- The fields of a payload in their order, each with the site that it is in turn, if it is one. -/
def payloadFields : MessageKind → List (String × Option Site)
  | .genericResponse => [("code", none), ("description", none)]
  | .requestHello => [("dsuid", none), ("api_version", none)]
  | .responseHello | .ping | .pong | .bye | .remove | .announceContainer | .vanish
  | .identifyDevice => [("dsuid", none)]
  | .announceDevice => [("dsuid", none), ("vdc_dsuid", none)]
  | .callScene =>
    [("dsuid", none), ("scene", none), ("force", none), ("group", none), ("zone_id", none)]
  | .saveScene | .undoScene | .setLocalPriority | .callMinScene =>
    [("dsuid", none), ("scene", none), ("group", none), ("zone_id", none)]
  | .identify => [("dsuid", none), ("group", none), ("zone_id", none)]
  | .setControlValue =>
    [("dsuid", none), ("name", none), ("value", none), ("group", none), ("zone_id", none)]
  | .setChannelValue => [("dsuid", none), ("apply_now", none), ("channel", none), ("value", none),
      ("group", none), ("zone_id", none)]
  | .getProperty => [("dsuid", none), ("query", some .elements)]
  | .propertyResponse => [("properties", some .elements)]
  | .setProperty | .pushProperty => [("dsuid", none), ("properties", some .elements)]

/-- The known fields at a site. Those of a message are its id and the names of all kinds. -/
def fields : Site → List (String × Option Site)
  | .message =>
    ("message_id", none) :: MessageKind.all.map fun kind => (kind.name, some (.payload kind))
  | .payload kind => payloadFields kind
  | .elements => []
  | .element => [("name", none), ("value", none), ("elements", some .elements)]

/-- The names of the known fields. -/
def names (site : Site) : List String := site.fields.map (·.1)

/-- One change at a site, or inside it, that makes no difference to what is read there. A record
may also be an array of its fields, and then these are found by their position. -/
inductive Edit : Site → Json → Json → Prop
  | insert {site : Site} {entry : String × Json} (before after : List (String × Json))
      (h : entry.1 ∉ site.names) :
      Edit site (.object (before ++ after)) (.object (before ++ entry :: after))
  | permute {site : Site} {entries entries' : List (String × Json)} (h : entries.Perm entries') :
      Edit site (.object entries) (.object entries')
  | field {site inner : Site} {key : String} {json json' : Json}
      (before after : List (String × Json)) (hfield : (key, some inner) ∈ site.fields)
      (h : Edit inner json json') : Edit site (.object (before ++ (key, json) :: after))
        (.object (before ++ (key, json') :: after))
  | position {site inner : Site} {key : String} {json json' : Json} (before after : List Json)
      (hfield : site.fields[before.length]? = some (key, some inner)) (h : Edit inner json json') :
      Edit site (.array (before ++ json :: after)) (.array (before ++ json' :: after))
  | item {json json' : Json} (before after : List Json) (h : Edit .element json json') :
      Edit .elements (.array (before ++ json :: after)) (.array (before ++ json' :: after))

section

variable {site inner : Site} {front : List String} {last : String} {json json' : Json}

theorem names_eq_of_fields
    (hfields : site.fields = front.map (·, none) ++ [(last, some inner)]) :
    site.names = front ++ [last] := by
  rw [names, hfields, List.map_append, List.map_map]
  simp [Function.comp_def]

/-- If the last field of a record is a site and no other is, a change leaves all fields as they are
or changes that one. -/
theorem slots?_of_edit {slots : List (Option Json)} (front : List String)
    (hfields : site.fields = front.map (·, none) ++ [(last, some inner)]) (hlast : last ∉ front)
    (h : Edit site json json') (hslots : json.slots? site.names = some slots) :
    json'.slots? site.names = some slots ∨ ∃ others field field',
      slots = others ++ [some field] ∧ json'.slots? site.names = some (others ++ [some field']) ∧
        Edit inner field field' := by
  have hnames := names_eq_of_fields hfields
  cases h with
  | insert before after h =>
    refine .inl ?_
    rw [← hslots]
    exact Json.entrySlots?_congr fun key hkey => Json.slot?_insert (by rintro rfl; exact h hkey)
  | permute h =>
    refine .inl ?_
    rw [← hslots]
    exact Json.entrySlots?_congr fun key _ => Json.slot?_of_perm h key
  | @field _ found key field field' before after hfield h =>
    obtain ⟨rfl, rfl⟩ : key = last ∧ found = inner := by
      simpa [hfields] using hfield
    refine .inr ?_
    rw [hnames] at hslots ⊢
    obtain ⟨others, slot, hothers, hslot, rfl⟩ := Json.entrySlots?_append_singleton.1 hslots
    obtain ⟨rfl, hslot'⟩ := Json.slot?_replace_self field' hslot
    have hothers' : Json.entrySlots? front (before ++ (key, field') :: after) = some others := by
      rw [← hothers]
      exact Json.entrySlots?_congr fun name hname => Json.slot?_replace_of_ne field field'
        (by rintro rfl; exact hlast hname)
    exact ⟨others, field, field', rfl,
      Json.entrySlots?_append_singleton.2 ⟨others, _, hothers', hslot', rfl⟩, h⟩
  | @position _ found key field field' before after hfield h =>
    -- The position is that of the last field, so no item comes after it.
    obtain ⟨hlength, rfl⟩ : before.length = front.length ∧ found = inner := by
      rw [hfields] at hfield
      rcases Nat.lt_trichotomy before.length front.length with hlt | heq | hgt
      · rw [List.getElem?_append_left (by simpa using hlt)] at hfield
        simp at hfield
      · rw [heq] at hfield
        simp at hfield
        exact ⟨heq, hfield.2.symm⟩
      · rw [List.getElem?_eq_none (by simp; omega)] at hfield
        cases hfield
    rw [hnames] at hslots ⊢
    simp only [Json.slots?, List.length_append, List.length_cons, List.length_nil] at hslots ⊢
    split at hslots
    · next hle =>
      obtain rfl : after = [] := List.eq_nil_of_length_eq_zero (by omega)
      obtain rfl := Option.some.inj hslots
      refine .inr ⟨before.map some, field, field', ?_, ?_, h⟩
      · simp [hlength]
      · simp [hlength]
    · cases hslots
  | item => cases front <;> simp [fields] at hfields

end

end Site

/-! ## What is read -/

namespace Element

theorem mapM_replace {α β : Type} {read : β → Option α} {item item' : β} {after : List β}
    (h : ∀ a, read item = some a → read item' = some a) : ∀ {before : List β} {list : List α},
    (before ++ item :: after).mapM read = some list →
      (before ++ item' :: after).mapM read = some list
  | [], list, hlist => by
    obtain ⟨first, rest, rfl, hfirst, hrest⟩ := Json.mapM_cons_eq_some hlist
    rw [List.nil_append, List.mapM_cons, h first hfirst, hrest]
    rfl
  | next :: before, list, hlist => by
    obtain ⟨first, rest, rfl, hfirst, hrest⟩ := Json.mapM_cons_eq_some hlist
    rw [List.cons_append, List.mapM_cons, hfirst, mapM_replace h hrest]
    rfl

mutual

/-- An element is read as before after a change. -/
theorem ofJson?_of_edit : ∀ {budget : Nat} {json json' : Json} {element : Element},
    Site.Edit .element json json' → ofJson? budget json = some element →
    ofJson? budget json' = some element
  | 0, _, _, _, _, hread => by
    rw [ofJson?] at hread
    cases hread
  | budget + 1, json, json', ⟨name, value, elements⟩, h, hread => by
    obtain ⟨names, values, lists, hslots, hname, hvalue, helements⟩ := exists_of_ofJson? hread
    obtain hslots' | ⟨others, field, field', hsame, hslots', hfield⟩ :=
      Site.slots?_of_edit ["name", "value"] rfl (by decide) h hslots
    · have hfields : json'.slots? fieldNames = some [names, values, lists] := hslots'
      rw [ofJson?_succ hfields, hname, Option.bind_some, hvalue, Option.bind_some, helements]
      rfl
    · have hlast : [names, values] ++ [lists] = others ++ [some field] := hsame
      obtain ⟨rfl, rfl⟩ : [names, values] = others ∧ lists = some field := by
        simpa using List.append_inj' hlast rfl
      have hfields : json'.slots? fieldNames = some [names, values, some field'] := hslots'
      have helements' : Json.defaulted? [] (listOfJson? budget) (some field') = some elements :=
        listOfJson?_of_edit hfield helements
      rw [ofJson?_succ hfields, hname, Option.bind_some, hvalue, Option.bind_some, helements']
      rfl

/-- So is a list of elements. -/
theorem listOfJson?_of_edit : ∀ {budget : Nat} {json json' : Json} {elements : List Element},
    Site.Edit .elements json json' → listOfJson? budget json = some elements →
    listOfJson? budget json' = some elements
  | 0, json, _, _, _, hread => by cases json <;> cases hread
  | budget + 1, _, _, elements, h, hread => by
    cases h with
    | insert | permute | field => cases hread
    | position before after hfield => cases hfield
    | item before after h =>
      exact mapM_replace (fun _ hitem => ofJson?_of_edit h hitem) hread

end

end Element

namespace Payload

variable {kind : MessageKind} {json json' : Json} {payload : Payload}

/-- A payload in an object depends on its known fields only. -/
theorem ofJson?_congr {entries entries' : List (String × Json)}
    (h : ∀ key ∈ (Site.payload kind).names, Json.slot? entries' key = Json.slot? entries key) :
    ofJson? kind (.object entries') = ofJson? kind (.object entries) := by
  have hslots := Json.entrySlots?_congr h
  cases kind <;>
    simp only [Site.names, Site.fields, Site.payloadFields, List.map_cons, List.map_nil]
      at hslots <;>
    simp only [ofJson?, target?, optionalTarget?, scene?, elementsOf?, objectSlots?, Json.slots?,
      hslots]

theorem elements?_of_edit {elements : List Element} (h : Site.Edit .elements json json')
    (hread : elements? (some json) = some elements) : elements? (some json') = some elements :=
  Element.listOfJson?_of_edit h hread

/-- What a payload with elements has in its fields after a change: the same, and a list that is read
as before. -/
theorem exists_slots?_of_edit (front : List String) (others : List (Option Json)) {name : String}
    {lists : Option Json}
    (hfields : Site.payloadFields kind = front.map (·, none) ++ [(name, some .elements)])
    (hname : name ∉ front) (h : Site.Edit (.payload kind) json json')
    (hslots : json.slots? (front ++ [name]) = some (others ++ [lists])) :
    ∃ lists', json'.slots? (front ++ [name]) = some (others ++ [lists']) ∧
      ∀ elements, elements? lists = some elements → elements? lists' = some elements := by
  have hsite : (Site.payload kind).fields = front.map (·, none) ++ [(name, some .elements)] :=
    hfields
  rw [← Site.names_eq_of_fields hsite] at hslots ⊢
  obtain hslots' | ⟨before, field, field', hsame, hslots', hfield⟩ :=
    Site.slots?_of_edit front hsite hname h hslots
  · exact ⟨lists, hslots', fun _ => id⟩
  · obtain ⟨rfl, hlists⟩ := List.append_inj' hsame rfl
    obtain rfl : lists = some field := (List.cons.inj hlists).1
    exact ⟨some field', hslots', fun _ => elements?_of_edit hfield⟩

/-- So it is with a dSUID before the elements. -/
theorem exists_slots?_of_edit_dsuid {name : String} {dsuids lists : Option Json}
    (hfields : Site.payloadFields kind = [("dsuid", none), (name, some .elements)])
    (hname : name ≠ "dsuid") (h : Site.Edit (.payload kind) json json')
    (hslots : json.slots? ["dsuid", name] = some [dsuids, lists]) :
    ∃ lists', json'.slots? ["dsuid", name] = some [dsuids, lists'] ∧
      ∀ elements, elements? lists = some elements → elements? lists' = some elements :=
  exists_slots?_of_edit ["dsuid"] [dsuids] hfields (by simpa using hname) h hslots

theorem elementsOf?_of_edit {name : String} {build : Option String → List Element → Payload}
    (hfields : Site.payloadFields kind = [("dsuid", none), (name, some .elements)])
    (hname : name ≠ "dsuid") (h : Site.Edit (.payload kind) json json')
    (hread : elementsOf? name build json = some payload) :
    elementsOf? name build json' = some payload := by
  unfold elementsOf? at hread
  split at hread
  · next dsuids lists hslots =>
    obtain ⟨lists', hslots', hlists⟩ := exists_slots?_of_edit_dsuid hfields hname h hslots
    simp only [Option.bind_eq_bind, Option.bind_eq_some_iff, Option.pure_def,
      Option.some.injEq] at hread
    obtain ⟨dsuid, hdsuid, elements, helements, rfl⟩ := hread
    simp [elementsOf?, hslots', hdsuid, hlists elements helements]
  · cases hread

/-- A payload without elements is changed in its unknown entries only, or in their order. -/
theorem exists_of_edit_plain (hfields : ∀ field ∈ Site.payloadFields kind, field.2 = none)
    (h : Site.Edit (.payload kind) json json') : ∃ entries entries', json = .object entries ∧
      json' = .object entries' ∧
      ∀ key ∈ (Site.payload kind).names, Json.slot? entries' key = Json.slot? entries key := by
  cases h with
  | insert before after h =>
    exact ⟨_, _, rfl, rfl, fun key hkey => Json.slot?_insert (by rintro rfl; exact h hkey)⟩
  | permute h => exact ⟨_, _, rfl, rfl, fun key _ => Json.slot?_of_perm h key⟩
  | field before after hfield h => cases hfields _ hfield
  | position before after hfield h => cases hfields _ (List.mem_of_getElem? hfield)

/-- A payload is read as before after a change. -/
theorem ofJson?_of_edit (h : Site.Edit (.payload kind) json json')
    (hread : ofJson? kind json = some payload) : ofJson? kind json' = some payload := by
  have hplain (hfields : ∀ field ∈ Site.payloadFields kind, field.2 = none) :
      ofJson? kind json' = some payload := by
    obtain ⟨entries, entries', rfl, rfl, hslots⟩ := exists_of_edit_plain hfields h
    rwa [ofJson?_congr hslots]
  cases kind with
  | getProperty | setProperty => exact elementsOf?_of_edit rfl (by decide) h hread
  | propertyResponse =>
    simp only [ofJson?] at hread ⊢
    split at hread
    · next lists hslots =>
      obtain ⟨lists', hslots', hlists⟩ :=
        exists_slots?_of_edit [] [] rfl (by decide) h hslots
      rw [List.nil_append, List.nil_append] at hslots'
      obtain ⟨elements, helements, rfl⟩ := Option.map_eq_some_iff.1 hread
      simp [hslots', hlists elements helements]
    · cases hread
  | pushProperty =>
    simp only [ofJson?] at hread ⊢
    split at hread
    · next dsuids lists hslots =>
      obtain ⟨lists', hslots', hlists⟩ := exists_slots?_of_edit_dsuid rfl (by decide) h hslots
      simp only [Option.bind_eq_bind, Option.bind_eq_some_iff, Option.pure_def,
        Option.some.injEq] at hread
      obtain ⟨dsuid, hdsuid, elements, helements, rfl⟩ := hread
      simp [hslots', hdsuid, hlists elements helements]
    · cases hread
  | _ => exact hplain (by decide)

end Payload

namespace Message

variable {entries entries' : List (String × Json)} {json json' : Json} {m : Message}

/-- The payloads among the entries of an object, each with its kind. -/
def payloads (entries : List (String × Json)) : List (MessageKind × Json) :=
  entries.filterMap fun entry => (MessageKind.ofName? entry.1).map (·, entry.2)

theorem payloadField?_eq_head? (entries : List (String × Json)) :
    payloadField? entries = (payloads entries).head? := List.head?_filterMap.symm

theorem length_payloads (entries : List (String × Json)) :
    (payloads entries).length = (kindNames entries).length := by
  induction entries with
  | nil => rfl
  | cons entry rest ih =>
    cases hkind : MessageKind.ofName? entry.1 with
    | none => simpa [payloads, kindNames, hkind] using ih
    | some kind => simpa [payloads, kindNames, hkind] using ih

/-- A message is read from its id and the first of its payloads. -/
theorem ofJson?_object_iff : ofJson? (.object entries) = some m ↔
    idIn? entries = some m.id ∧ ∃ field ∈ (payloads entries).head?,
      Payload.ofJson? field.1 field.2 = some m.payload := by
  rw [ofJson?, idIn?, ← payloadField?_eq_head?]
  simp only [Option.bind_eq_bind, Option.bind_eq_some_iff, Option.pure_def, Option.some.injEq,
    Option.mem_def]
  constructor
  · rintro ⟨slot, hslot, id, hid, field, hfield, payload, hpayload, rfl⟩
    exact ⟨⟨slot, hslot, hid⟩, field, hfield, hpayload⟩
  · rintro ⟨⟨slot, hslot, hid⟩, field, hfield, hpayload⟩
    exact ⟨slot, hslot, m.id, hid, field, hfield, m.payload, hpayload, rfl⟩

/-- Exactly one entry of an object is named as a kind of payload. -/
def HasOneKind (json : Json) : Prop :=
  ∃ entries, json = .object entries ∧ (kindNames entries).length = 1

theorem ofName?_eq_none_of_notMem {name : String} (h : name ∉ Site.names .message) :
    MessageKind.ofName? name = none := by
  rw [MessageKind.ofName?, List.find?_eq_none]
  intro kind hkind hname
  refine h ?_
  rw [← beq_iff_eq.1 hname]
  exact List.mem_map.2 ⟨_, List.mem_cons_of_mem _ (List.mem_map_of_mem hkind), rfl⟩

/-- A message with one payload is read as before after a change, and still has one. -/
theorem ofJson?_of_edit (h : Site.Edit .message json json') (hkind : HasOneKind json)
    (hread : ofJson? json = some m) : ofJson? json' = some m ∧ HasOneKind json' := by
  obtain ⟨entries, rfl, hlength⟩ := hkind
  rw [← length_payloads] at hlength
  obtain ⟨hid, field, hfield, hpayload⟩ := ofJson?_object_iff.1 hread
  -- It is enough to tell what the entries are after the change.
  have hsuffices {entries' : List (String × Json)} {json : Json}
      (hid' : Json.slot? entries' "message_id" = Json.slot? entries "message_id")
      (hpayloads : payloads entries' = [(field.1, json)])
      (hjson : Payload.ofJson? field.1 json = some m.payload) :
      ofJson? (.object entries') = some m ∧ HasOneKind (.object entries') := by
    refine ⟨ofJson?_object_iff.2 ⟨?_, (field.1, json), ?_, hjson⟩, entries', rfl, ?_⟩
    · rw [idIn?, hid']
      exact hid
    · rw [hpayloads]
      rfl
    · rw [← length_payloads, hpayloads]
      rfl
  have hone : payloads entries = [field] := by
    obtain ⟨only, honly⟩ := List.length_eq_one_iff.1 hlength
    rw [honly] at hfield
    rw [honly, Option.some.inj hfield]
  generalize hentries : Json.object entries = whole at h
  cases h with
  | @insert _ entry before after hunknown =>
    obtain rfl := Json.object.inj hentries
    have hkind := ofName?_eq_none_of_notMem hunknown
    refine hsuffices (Json.slot?_insert ?_) ?_ hpayload
    · rintro hname
      exact hunknown (hname ▸ List.mem_cons_self)
    · rw [← hone]
      simp [payloads, hkind]
  | permute hperm =>
    obtain rfl := Json.object.inj hentries
    refine hsuffices (Json.slot?_of_perm hperm _) ?_ hpayload
    have hpayloads := hperm.filterMap fun entry =>
      (MessageKind.ofName? entry.1).map (·, entry.2)
    rw [show entries.filterMap _ = [field] from hone, List.singleton_perm] at hpayloads
    exact hpayloads.symm
  | @field _ inner key inside inside' before after hknown hinner =>
    obtain rfl := Json.object.inj hentries
    obtain ⟨kind, -, rfl, rfl⟩ : ∃ kind ∈ MessageKind.all, kind.name = key ∧
        .payload kind = inner := by
      simpa [Site.fields] using hknown
    have hsplit (json : Json) : payloads (before ++ (kind.name, json) :: after) =
        payloads before ++ (kind, json) :: payloads after := by
      simp [payloads]
    rw [hsplit] at hone
    obtain ⟨hbefore, hsingle⟩ : payloads before = [] ∧
        (kind, inside) :: payloads after = [field] := by
      simpa using List.append_eq_singleton_iff.1 hone
    obtain ⟨rfl, hafter⟩ := List.cons.inj hsingle
    refine hsuffices (Json.slot?_replace_of_ne _ _ (kind_name_ne kind).symm) ?_
      (Payload.ofJson?_of_edit hinner hpayload)
    rw [hsplit, hbefore, hafter]
    rfl
  | position => cases hentries

/-- So it is after any number of changes. -/
theorem ofJson?_of_edits (h : Relation.ReflTransGen (Site.Edit .message) json json')
    (hkind : HasOneKind json) (hread : ofJson? json = some m) : ofJson? json' = some m := by
  have hall : ofJson? json' = some m ∧ HasOneKind json' := by
    induction h with
    | refl => exact ⟨hread, hkind⟩
    | tail _ hedit ih => exact ofJson?_of_edit hedit ih.2 ih.1
  exact hall.1

/-- A message was decoded from the text of some value. If that has one payload, and unknown entries
come into it and entries change their order, then every text of what it is then, unless it nests too
deep, is decoded as the same message. -/
theorem readsAlike {bytes : List UInt8} {m : Message} (h : decode bytes = .ok m) :
    ∃ json, Json.TextOf json bytes ∧ (HasOneKind json → ∀ json' bytes',
      Relation.ReflTransGen (Site.Edit .message) json json' → Json.TextOf json' bytes' →
        json'.nesting ≤ Json.maxNesting → decode bytes' = .ok m) := by
  obtain ⟨json, hread, hmessage⟩ : ∃ json, Json.read bytes = some json ∧ ofJson? json = some m := by
    unfold decode at h
    split at h
    · next found hfound =>
      obtain rfl := Except.ok.inj h
      exact Option.bind_eq_some_iff.1 hfound
    · cases h
  refine ⟨json, (Json.read_eq_some_iff.1 hread).1, ?_⟩
  intro hkind json' bytes' hedits htext hnesting
  rw [decode, Json.read_eq_some_iff.2 ⟨htext, hnesting⟩, Option.bind_some,
    ofJson?_of_edits hedits hkind hmessage]

/-- The scope of a notification is found among unknown entries, wherever its fields stand. -/
theorem readsAlike_scope :
    let devices : String × Json := ("dsuid", .array [.text "D"])
    let group : String × Json := ("group", .number (.integer 1))
    let zone : String × Json := ("zone_id", .number (.integer 2))
    let note : String × Json := ("note", .object [("group", .null)])
    let identify (entries : List (String × Json)) : String × Json :=
      ("vdsm_notification_identify", .object entries)
    let m : Message := ⟨0, .identify ["D"] ⟨some 1, some 2⟩⟩
    decode (Json.object [identify [devices, group, zone]]).render = .ok m ∧
      decode ((Json.object [note, identify [zone, note, group, devices]]).indent 0) = .ok m := by
  intro devices group zone note identify m
  have hdevices : devices.2.IsPrintable := ⟨trivial, trivial⟩
  have hgroup : group.2.IsPrintable := ⟨by decide, by decide⟩
  have hzone : zone.2.IsPrintable := ⟨by decide, by decide⟩
  have hnote : note.2.IsPrintable := ⟨trivial, trivial⟩
  have htext : Json.TextOf (.object [identify [devices, group, zone]]) _ :=
    Json.textOf_render ⟨⟨hdevices, hgroup, hzone, trivial⟩, trivial⟩
  have hdecode : decode (Json.object [identify [devices, group, zone]]).render = .ok m := by
    rw [decode, Json.read_eq_some_iff.2 ⟨htext, by decide⟩, Option.bind_some]
    rfl
  obtain ⟨json, hjson, halike⟩ := readsAlike hdecode
  obtain rfl : .object [identify [devices, group, zone]] = json := by
    have hparse := Json.parse_of_textOf hjson
    rw [Json.parse_of_textOf htext] at hparse
    exact Option.some.inj hparse
  refine ⟨hdecode, halike ⟨_, rfl, by decide⟩ _ _ ?_ (Json.textOf_indent 0
    ⟨hnote, ⟨hzone, hnote, hgroup, hdevices, trivial⟩, trivial⟩) (by decide)⟩
  have hsite : (MessageKind.identify.name, some (.payload .identify)) ∈ Site.message.fields := by
    decide
  have hturned : Site.Edit .message (.object [identify [devices, group, zone]])
      (.object [identify [zone, group, devices]]) :=
    .field [] [] hsite (.permute (List.reverse_perm [devices, group, zone]).symm)
  have hinside : Site.Edit .message (.object [identify [zone, group, devices]])
      (.object [identify [zone, note, group, devices]]) :=
    .field [] [] hsite (.insert [zone] [group, devices] (by decide))
  have hbefore : Site.Edit .message (.object [identify [zone, note, group, devices]])
      (.object [note, identify [zone, note, group, devices]]) :=
    .insert [] [identify [zone, note, group, devices]] (by decide)
  exact ((Relation.ReflTransGen.single hturned).tail hinside).tail hbefore

/-- Half a surrogate pair is well formed and no string, so a message is not read past it, not even
under an unknown name. -/
theorem refused_surrogate :
    let front := Utf8.encode "\x7b\"vdc_send_pong\":\x7b\"dsuid\":\"D\"\x7d"
    let value := Utf8.encode "\"\\ud800\""
    decode (front ++ [0x7d]) = .ok ⟨0, .pong "D"⟩ ∧ "x" ∉ Site.names .message ∧
      (Json.parse value).isSome = true ∧
      decode (front ++ Utf8.encode ",\"x\":" ++ value ++ [0x7d]) =
        .error (.protocol .malformed) := by
  decide +kernel

end Message

end Vdc
