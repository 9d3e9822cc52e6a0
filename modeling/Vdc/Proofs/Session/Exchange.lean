import Vdc.Network
import Vdc.Proofs.Session.Newcomers

/-!
# What passes over each connection

The journal tells which connection was held when something happened (`Event.HappenedOn`). If no two
connections have one name, it accounts for all that is on the lines: the bytes written on a
connection are the frames of messages that were sent while it was held, or of the refusal that a
newcomer gets, and what was taken up while it was held are payloads of frames that came over it. So
no message reaches a connection other than the one it was meant for.
-/

namespace Vdc

open Session

variable {σ : Type}

/-! ## Events and the connections they are about -/

/-- An event happened while the connection with a name was held. -/
def Event.HappenedOn (event : Event σ) (name : String) (journal : List (Event σ)) : Prop :=
  ∃ past, event :: past <:+ journal ∧ connectionOf past = some name

theorem accepted_mem_of_connectionOf {name : String} {journal : List (Event σ)}
    (h : connectionOf journal = some name) : .accepted name ∈ journal := by
  induction journal with
  | nil => cases h
  | cons event past ih =>
    cases event with
    | accepted link =>
      obtain rfl := Option.some.inj h
      exact List.mem_cons_self
    | closed => cases h
    | _ => exact List.mem_cons_of_mem _ (ih h)

/-- The connection that was accepted, to be held or to be turned away. -/
def Event.attended? : Event σ → Option String
  | .accepted name | .rejected name => some name
  | _ => none

/-- The connections that were accepted, the last one first. -/
def attendance (journal : List (Event σ)) : List String := journal.filterMap Event.attended?

theorem attendance_of_mem {event : Event σ} {name : String} {journal : List (Event σ)}
    (h : event ∈ journal) (hname : event.attended? = some name) : name ∈ attendance journal :=
  List.mem_filterMap.2 ⟨event, h, hname⟩

/-- If every connection was accepted once, none was both held and turned away. -/
theorem rejected_not_mem {name : String} {journal : List (Event σ)}
    (hnodup : (attendance journal).Nodup) (haccepted : .accepted name ∈ journal) :
    .rejected name ∉ journal := by
  intro hrejected
  have hapart : journal.Pairwise fun event event' =>
      ∀ name ∈ event.attended?, ∀ name' ∈ event'.attended?, name ≠ name' :=
    List.pairwise_filterMap.1 hnodup
  have hsymmetric : Std.Symm fun event event' : Event σ =>
      ∀ name ∈ event.attended?, ∀ name' ∈ event'.attended?, name ≠ name' :=
    ⟨fun _ _ h name hname name' hname' => (h name' hname' name hname).symm⟩
  exact hapart.forall haccepted hrejected nofun name rfl name rfl rfl

namespace Event.HappenedOn

variable {event event' : Event σ} {name : String} {journal : List (Event σ)}

theorem cons_iff : event.HappenedOn name (event' :: journal) ↔
    event = event' ∧ connectionOf journal = some name ∨ event.HappenedOn name journal := by
  constructor
  · rintro ⟨past, hsuffix, hname⟩
    rcases List.suffix_cons_iff.1 hsuffix with heq | hsuffix
    · obtain ⟨rfl, rfl⟩ := List.cons.inj heq
      exact .inl ⟨rfl, hname⟩
    · exact .inr ⟨past, hsuffix, hname⟩
  · rintro (⟨rfl, hname⟩ | ⟨past, hsuffix, hname⟩)
    · exact ⟨journal, List.suffix_refl _, hname⟩
    · exact ⟨past, hsuffix.trans (List.suffix_cons _ _), hname⟩

theorem cons (h : event.HappenedOn name journal) (event' : Event σ) :
    event.HappenedOn name (event' :: journal) := cons_iff.2 (.inr h)

/-- Nothing happens on a connection that was not accepted. -/
theorem accepted_mem (h : event.HappenedOn name journal) : .accepted name ∈ journal := by
  obtain ⟨past, hsuffix, hname⟩ := h
  exact hsuffix.subset (List.mem_cons_of_mem _ (accepted_mem_of_connectionOf hname))

end Event.HappenedOn

/-! ## One connection -/

/-- The journal accounts for what passed over a connection: every message on it was sent while it
was held, or is the refusal, and every payload taken up while it was held came over it. -/
structure Link.Accounted (limit : Nat) (journal : List (Event σ)) (link : Link) : Prop where
  sent : ∃ messages, Message.Framed limit messages link.written ∧ ∀ m ∈ messages,
    m = .refusal ∨ (Event.sent m).HappenedOn link.name journal
  taken : ∃ payloads, Frame.Taken limit link.arrived payloads link.unread ∧
    ∀ payload, (Event.handled payload).HappenedOn link.name journal → payload ∈ payloads

namespace Link.Accounted

variable {limit : Nat} {journal : List (Event σ)} {link link' : Link}

/-- A connection on which nothing has happened. -/
theorem of_untouched (hname : .accepted link.name ∉ journal) (hwritten : link.written = [])
    (hunread : link.arrived = link.unread) : link.Accounted limit journal where
  sent := ⟨[], hwritten ▸ .nil, nofun⟩
  taken := ⟨[], hunread ▸ .none _, fun _ hhappened => absurd hhappened.accepted_mem hname⟩

/-- An event is noted down that takes nothing up from the connection. -/
theorem cons (h : link.Accounted limit journal) (event : Event σ)
    (hother : ∀ payload, event = .handled payload → connectionOf journal ≠ some link.name) :
    link.Accounted limit (event :: journal) where
  sent := by
    obtain ⟨messages, hframed, hsent⟩ := h.sent
    exact ⟨messages, hframed, fun m hm => (hsent m hm).imp_right fun h => h.cons event⟩
  taken := by
    obtain ⟨payloads, htaken, hhandled⟩ := h.taken
    refine ⟨payloads, htaken, fun payload hhappened => ?_⟩
    rcases Event.HappenedOn.cons_iff.1 hhappened with ⟨hevent, hname⟩ | hbefore
    · exact absurd hname (hother payload hevent.symm)
    · exact hhandled payload hbefore

/-- Bytes arrive. -/
theorem grow (h : link.Accounted limit journal) (hgrows : link.Grows link')
    (hwritten : link'.written = link.written) : link'.Accounted limit journal := by
  obtain ⟨hname, more, harrived, hunread⟩ := hgrows
  obtain ⟨payloads, htaken, hhandled⟩ := h.taken
  refine ⟨?_, payloads, ?_, ?_⟩
  · rw [hwritten, hname]
    exact h.sent
  · rw [harrived, hunread]
    exact htaken.append more
  · rw [hname]
    exact hhandled

/-- A message is sent on the connection that is held. -/
theorem send (h : link.Accounted limit journal) (hheld : connectionOf journal = some link.name)
    {m : Message} {payload frame : List UInt8} (hencode : m.encode = .ok payload)
    (hframe : Frame.serialize limit payload = .ok frame) :
    Link.Accounted limit (.sent m :: journal) { link with written := link.written ++ frame } := by
  obtain ⟨messages, hframed, hsent⟩ := h.sent
  have hlater := h.cons (.sent m) nofun
  refine ⟨⟨messages ++ [m], hframed.append (.single hencode hframe), fun m' hm' => ?_⟩,
    hlater.taken⟩
  rcases List.mem_append.1 hm' with hold | hnew
  · exact (hsent m' hold).imp_right fun h => h.cons _
  · obtain rfl := List.mem_singleton.1 hnew
    exact .inr (Event.HappenedOn.cons_iff.2 (.inl ⟨rfl, hheld⟩))

/-- A payload is taken up from the connection. -/
theorem take (h : link.Accounted limit journal) {payload : List UInt8} {consumed : Nat}
    (hparse : Frame.parse limit link.unread = .complete payload consumed) :
    Link.Accounted limit (.handled payload :: journal)
      { link with unread := link.unread.drop consumed } := by
  obtain ⟨messages, hframed, hsent⟩ := h.sent
  obtain ⟨payloads, htaken, hhandled⟩ := h.taken
  refine ⟨⟨messages, hframed, fun m hm => (hsent m hm).imp_right fun h => h.cons _⟩,
    payloads ++ [payload], htaken.snoc hparse, fun payload' hhappened => ?_⟩
  rcases Event.HappenedOn.cons_iff.1 hhappened with ⟨hevent, -⟩ | hbefore
  · obtain rfl := Event.handled.inj hevent
    exact List.mem_append_right _ List.mem_cons_self
  · exact List.mem_append_left _ (hhandled payload' hbefore)

theorem shutDown (h : link.Accounted limit journal) : link.shutDown.Accounted limit journal :=
  ⟨h.sent, h.taken⟩

/-- A newcomer is turned away. -/
theorem turnAway {newcomer closed : Link} (hname : .accepted newcomer.name ∉ journal)
    (hunheard : newcomer.IsUnheard) (hturned : newcomer.TurnedAway limit closed) :
    closed.Accounted limit journal := by
  obtain ⟨reject, hreject, -⟩ := exists_rejection
  have hsame : closed = { newcomer with written := closed.written, closed := true } :=
    hturned.shutDown
  have hsilent (hwritten : closed.written = []) : closed.Accounted limit journal := by
    rw [hsame]
    exact of_untouched hname hwritten hunheard
  by_cases hfits : reject.length ≤ limit
  · cases hwritable : newcomer.writable with
    | true =>
      have htold := (hturned.told reject hreject hfits hwritable).1
      refine ⟨⟨_, htold, fun m hm => .inl (List.mem_singleton.1 hm)⟩, [], ?_, ?_⟩
      · rw [hsame, hunheard]
        exact .none _
      · rw [hsame]
        exact fun _ hhappened => absurd hhappened.accepted_mem hname
    | false => exact hsilent (hturned.untold reject hreject (.inr hwritable)).1
  · exact hsilent (hturned.untold reject hreject (.inl (by omega))).1

end Link.Accounted

/-! ## All connections -/

namespace Transport

theorem forall_links_iff {t : Transport} {P : Link → Prop} : (∀ link ∈ t.links, P link) ↔
    (∀ link ∈ t.waiting, P link) ∧ (∀ link, t.held = some link → P link) ∧
      ∀ link ∈ t.past, P link := by
  simp only [links, List.forall_mem_append, Option.mem_toList]

theorem name_turnAway {t : Transport} {reject : List UInt8} {newcomer closed : Link}
    {result : Except Error Link} (h : t.turnAway reject newcomer = (result, closed)) :
    closed.name = newcomer.name := by
  obtain rfl : (t.turnAway reject newcomer).2 = closed := congrArg Prod.snd h
  unfold turnAway Link.write
  split
  · rfl
  · split
    · next hwrite =>
      split at hwrite
      · obtain rfl := Except.ok.inj hwrite
        rfl
      · cases hwrite
    · rfl

/-- The names of the connections that do not wait any more. -/
def attended (t : Transport) : List String := (t.held.toList ++ t.past).map Link.name

/-- The names of all connections. -/
def names (t : Transport) : List String := t.links.map Link.name

theorem names_eq (t : Transport) : t.names = t.waiting.map Link.name ++ t.attended := by
  rw [names, links, List.map_append, attended]

theorem mem_links_update {t : Transport} {name : String} {f : Link → Link} {link : Link}
    (h : link ∈ (t.update name f).links)
    (hf : ∀ link : Link, link.Grows (f link) ∧ (f link).written = link.written) :
    ∃ link' ∈ t.links, link'.Grows link ∧ link.written = link'.written := by
  have hchange (link' : Link) :
      link'.Grows (if link'.name = name then f link' else link') ∧
        (if link'.name = name then f link' else link').written = link'.written := by
    split
    · exact hf link'
    · exact ⟨.of_eq rfl rfl rfl, rfl⟩
  simp only [links, update, List.mem_append, List.mem_map, Option.toList_map] at h
  rcases h with ⟨link', hlink', rfl⟩ | ⟨link', hlink', rfl⟩ | hpast
  · exact ⟨link', by simp [links, hlink'], hchange link'⟩
  · exact ⟨link', by simp [links, Option.mem_toList.1 hlink'], hchange link'⟩
  · exact ⟨link, by simp [links, hpast], .of_eq rfl rfl rfl, rfl⟩

/-- What happens without the endpoint's doing brings bytes to connections, or a new connection. -/
theorem mem_links_happen {t : Transport} {happening : Happening} {link : Link}
    (h : link ∈ (t.happen happening).links) :
    (∃ link' ∈ t.links, link'.Grows link ∧ link.written = link'.written) ∨
      link ∈ (t.happen happening).waiting ∧ link.IsUnheard ∧ link.written = [] := by
  have hsame (hlink : link ∈ t.links) :
      ∃ link' ∈ t.links, link'.Grows link ∧ link.written = link'.written :=
    ⟨link, hlink, .of_eq rfl rfl rfl, rfl⟩
  cases happening with
  | elapse => exact .inl (hsame h)
  | arrive newcomer =>
    simp only [happen, arrive, links, List.append_assoc, List.mem_append, List.mem_singleton] at h
    rcases h with hwaiting | rfl | hattended
    · exact .inl (hsame (by simp only [links, List.mem_append, hwaiting, true_or]))
    · exact .inr ⟨by simp [happen, arrive], rfl, rfl⟩
    · exact .inl (hsame (by simp only [links, List.mem_append, hattended, or_true]))
  | deliver name bytes => exact .inl (mem_links_update h fun _ => ⟨⟨rfl, bytes, rfl, rfl⟩, rfl⟩)
  | finish | jam | ease => exact .inl (mem_links_update h fun _ => ⟨.of_eq rfl rfl rfl, rfl⟩)

/-- What happens without the endpoint's doing lets no connection stop waiting. -/
theorem attended_happen (t : Transport) (happening : Happening) :
    (t.happen happening).attended = t.attended := by
  have hpast : (t.happen happening).past = t.past := by cases happening <;> rfl
  have hheld : (t.happen happening).held.toList.map Link.name = t.held.toList.map Link.name := by
    rw [← Option.toList_map, t.name_happen happening, Option.toList_map]
  rw [attended, attended, List.map_append, List.map_append, hheld, hpast]

theorem waiting_update (t : Transport) (name : String) {f : Link → Link}
    (hf : ∀ link, (f link).name = link.name) :
    (t.update name f).waiting.map Link.name = t.waiting.map Link.name := by
  simp only [update, List.map_map]
  refine List.map_congr_left fun link _ => ?_
  simp only [Function.comp_apply]
  split
  · exact hf link
  · rfl

/-- Connections that wait go on waiting, and others come after them. -/
theorem waiting_happen (t : Transport) (happening : Happening) :
    ∃ more, (t.happen happening).waiting.map Link.name = t.waiting.map Link.name ++ more := by
  have hsame {names names' : List String} (h : names' = names) :
      ∃ more, names' = names ++ more := ⟨[], by rw [h, List.append_nil]⟩
  cases happening with
  | elapse => exact hsame rfl
  | arrive link => exact ⟨[link.name], List.map_append⟩
  | deliver | finish | jam | ease => exact hsame (t.waiting_update _ fun _ => rfl)

end Transport

variable {own : String} {version : UInt32} {l l' : Lines σ}

/-- Traffic brings connections that wait, or lets those that have waited longest stop waiting. -/
theorem Traffic.names_cases (htraffic : Traffic own version l l') :
    l'.transport.attended = l.transport.attended ∧ (∃ more,
      l'.transport.waiting.map Link.name = l.transport.waiting.map Link.name ++ more) ∨
    ∃ names, l.transport.waiting.map Link.name = names ++ l'.transport.waiting.map Link.name ∧
      l'.transport.attended.Perm (names ++ l.transport.attended) := by
  have hnobody {t t' : Transport} (hwaiting : t'.waiting = t.waiting)
      (hattended : t'.attended = t.attended) : t'.attended = t.attended ∧ ∃ more,
        t'.waiting.map Link.name = t.waiting.map Link.name ++ more :=
    ⟨hattended, [], by rw [hwaiting, List.append_nil]⟩
  cases htraffic with
  | note => exact .inl (hnobody rfl rfl)
  | happen happening =>
    exact .inl ⟨l.transport.attended_happen happening, l.transport.waiting_happen happening⟩
  | send m payload transport hencode hwrite =>
    obtain ⟨frame, link, -, hheld, -, rfl⟩ := Transport.writeFrame_eq_ok hwrite
    exact .inl (hnobody rfl (by simp [Transport.attended, hheld]))
  | accept newcomer waiting hwaiting hfree =>
    exact .inr ⟨[newcomer.name], by simp [hwaiting], by simp [Transport.attended, hfree]⟩
  | turnAway newcomer closed waiting reject result hwaiting hheld hreject hturned =>
    refine .inr ⟨[newcomer.name], by simp [hwaiting], ?_⟩
    simp [Transport.attended, Transport.name_turnAway hturned]
  | take payload transport hread =>
    obtain ⟨link, consumed, hheld, -, rfl⟩ := Transport.readFrame_eq_frame hread
    exact .inl (hnobody rfl (by simp [Transport.attended, hheld]))
  | hangUp link hheld =>
    exact .inl (hnobody rfl (by simp [Transport.attended, hheld, Link.shutDown]))
  | close hfree =>
    refine .inr ⟨l.transport.waiting.map Link.name, by simp, ?_⟩
    simp [Transport.attended, hfree, Link.shutDown, Function.comp_def]

theorem Traffic.frameLimit_eq (htraffic : Traffic own version l l') :
    l'.transport.frameLimit = l.transport.frameLimit := by
  cases htraffic with
  | note | accept | turnAway | hangUp | close => rfl
  | happen happening => exact (l.transport.grows_happen happening).frameLimit
  | send m payload transport hencode hwrite => exact (Transport.grows_writeFrame hwrite).frameLimit
  | take payload transport hread =>
    obtain ⟨link, consumed, -, -, rfl⟩ := Transport.readFrame_eq_frame hread
    rfl

/-- No traffic takes a connection away. -/
theorem Traffic.nodup_names (htraffic : Traffic own version l l')
    (h : l'.transport.names.Nodup) : l.transport.names.Nodup := by
  simp only [Transport.names_eq] at h ⊢
  rcases htraffic.names_cases with ⟨hattended, more, hwaiting⟩ | ⟨names, hwaiting, hattended⟩
  · rw [hattended, hwaiting] at h
    exact h.sublist ((List.sublist_append_left _ _).append_right _)
  · rw [hwaiting, List.append_assoc]
    have hsame := (hattended.append_left (l'.transport.waiting.map Link.name)).trans
      (List.perm_append_comm_assoc _ _ _)
    exact hsame.nodup_iff.1 h

theorem Traffic.attended_subset (htraffic : Traffic own version l l') :
    l.transport.attended ⊆ l'.transport.attended := by
  rcases htraffic.names_cases with ⟨hattended, -⟩ | ⟨names, -, hattended⟩
  · rw [hattended]
    exact List.Subset.refl _
  · exact fun name hname => hattended.symm.subset (List.mem_append_right _ hname)

/-- A connection that is accepted was waiting. -/
theorem Traffic.attendance_cases (htraffic : Traffic own version l l') :
    attendance l'.journal = attendance l.journal ∨
    ∃ name, attendance l'.journal = name :: attendance l.journal ∧
      name ∈ l.transport.waiting.map Link.name ∧ name ∈ l'.transport.attended := by
  cases htraffic with
  | note event hevent =>
    refine .inl (List.filterMap_cons_none ?_)
    cases event <;> first | rfl | exact absurd trivial hevent
  | happen | send | take | hangUp | close => exact .inl rfl
  | accept newcomer waiting hwaiting =>
    exact .inr ⟨newcomer.name, rfl, by simp [hwaiting], by simp [Transport.attended]⟩
  | turnAway newcomer closed waiting reject result hwaiting hheld hreject hturned =>
    cases result with
    | error e => exact .inl rfl
    | ok link =>
      have hname := Transport.name_turnAway hturned
      exact .inr ⟨newcomer.name, rfl, by simp [hwaiting], by simp [Transport.attended, hname]⟩

/-- The journal accounts for all connections: it tells which one is held, which were accepted, each
of them once, and what passed over each. -/
structure Lines.Accounted (limit : Nat) (l : Lines σ) : Prop where
  frameLimit_eq : l.transport.frameLimit = limit
  tracked : connectionOf l.journal = l.transport.held.map Link.name
  waiting : ∀ link ∈ l.transport.waiting, link.IsUnheard
  known : attendance l.journal ⊆ l.transport.attended
  nodup : (attendance l.journal).Nodup
  links : ∀ link ∈ l.transport.links, link.Accounted limit l.journal

namespace Lines.Accounted

variable {limit : Nat}

theorem listen (limit ioTimeout : Nat) :
    (⟨.listen limit ioTimeout, []⟩ : Lines σ).Accounted limit where
  frameLimit_eq := rfl
  tracked := rfl
  waiting := List.forall_mem_nil _
  known := List.nil_subset _
  nodup := .nil
  links := List.forall_mem_nil _

/-- No connection waits that has stopped waiting before. -/
theorem not_attended (hnames : l.transport.names.Nodup) {name : String}
    (hname : name ∈ l.transport.waiting.map Link.name) : name ∉ l.transport.attended := by
  rw [Transport.names_eq] at hnames
  exact List.disjoint_of_nodup_append hnames hname

theorem known_traffic (h : l.Accounted limit) (htraffic : Traffic own version l l') :
    attendance l'.journal ⊆ l'.transport.attended := by
  have hbefore := List.Subset.trans h.known htraffic.attended_subset
  rcases htraffic.attendance_cases with hsame | ⟨name, hcons, -, hname⟩
  · rwa [hsame]
  · rw [hcons]
    exact List.cons_subset.2 ⟨hname, hbefore⟩

theorem nodup_traffic (h : l.Accounted limit) (hnames : l.transport.names.Nodup)
    (htraffic : Traffic own version l l') : (attendance l'.journal).Nodup := by
  rcases htraffic.attendance_cases with hsame | ⟨name, hcons, hname, -⟩
  · rw [hsame]
    exact h.nodup
  · rw [hcons]
    exact List.nodup_cons.2 ⟨fun hmem => not_attended hnames hname (h.known hmem), h.nodup⟩

theorem tracked_traffic (h : l.Accounted limit) (htraffic : Traffic own version l l') :
    connectionOf l'.journal = l'.transport.held.map Link.name := by
  have hbefore := h.tracked
  cases htraffic with
  | note event hevent => cases event <;> first | exact hbefore | exact absurd trivial hevent
  | happen happening => exact hbefore.trans (l.transport.name_happen happening).symm
  | send m payload transport hencode hwrite =>
    obtain ⟨frame, link, -, hheld, -, rfl⟩ := Transport.writeFrame_eq_ok hwrite
    simpa [connectionOf, hheld] using hbefore
  | accept | hangUp => rfl
  | turnAway newcomer closed waiting reject result =>
    cases result <;> exact hbefore
  | take payload transport hread =>
    obtain ⟨link, consumed, hheld, -, rfl⟩ := Transport.readFrame_eq_frame hread
    simpa [connectionOf, hheld] using hbefore
  | close hfree => exact hbefore

theorem waiting_traffic (h : l.Accounted limit) (htraffic : Traffic own version l l') :
    ∀ link ∈ l'.transport.waiting, link.IsUnheard := by
  cases htraffic with
  | note | hangUp => exact h.waiting
  | happen happening => exact (l.transport.grows_happen happening).waiting h.waiting
  | send m payload transport hencode hwrite =>
    exact (Transport.grows_writeFrame hwrite).waiting h.waiting
  | accept newcomer waiting hwaiting | turnAway newcomer closed waiting reject result hwaiting =>
    exact fun link hlink => h.waiting link (by simp [hwaiting, hlink])
  | take payload transport hread =>
    obtain ⟨link, consumed, -, -, rfl⟩ := Transport.readFrame_eq_frame hread
    exact h.waiting
  | close => exact nofun

/-- No other connection has the name of the one that is held. -/
theorem name_ne_of_held (hnames : l.transport.names.Nodup) {link link' : Link}
    (hheld : l.transport.held = some link)
    (hlink' : link' ∈ l.transport.waiting ∨ link' ∈ l.transport.past) : link.name ≠ link'.name := by
  intro hsame
  rcases hlink' with hwaiting | hpast
  · refine not_attended hnames (List.mem_map_of_mem hwaiting) ?_
    rw [Transport.attended, hheld, ← hsame]
    exact List.mem_cons_self
  · rw [Transport.names_eq] at hnames
    have hattended := (List.nodup_append.1 hnames).2.1
    rw [Transport.attended, hheld] at hattended
    exact (List.nodup_cons.1 hattended).1 (hsame ▸ List.mem_map_of_mem hpast)

theorem connectionOf_of_held (h : l.Accounted limit) {link : Link}
    (hheld : l.transport.held = some link) : connectionOf l.journal = some link.name := by
  rw [h.tracked, hheld, Option.map_some]

/-- The journal accounts for a newcomer that is turned away. -/
theorem turnedAway (h : l.Accounted limit) (hexclusive : l.Exclusive)
    (hnames : l.transport.names.Nodup) {reject : List UInt8} {newcomer closed : Link}
    {result : Except Error Link} (hwaiting : newcomer ∈ l.transport.waiting)
    (hreject : rejection = .ok reject)
    (hturned : l.transport.turnAway reject newcomer = (result, closed)) :
    closed.Accounted limit l.journal := by
  have hunknown := not_attended hnames (List.mem_map_of_mem hwaiting)
  have haway := l.transport.turnedAway hreject (hexclusive.unwritten newcomer hwaiting)
  rw [hturned, h.frameLimit_eq] at haway
  exact .turnAway (fun hmem => hunknown (h.known (attendance_of_mem hmem rfl)))
    (h.waiting newcomer hwaiting) haway

theorem links_traffic (h : l.Accounted limit) (hexclusive : l.Exclusive)
    (hnames : l'.transport.names.Nodup) (htraffic : Traffic own version l l') :
    ∀ link ∈ l'.transport.links, link.Accounted limit l'.journal := by
  have hbefore := htraffic.nodup_names hnames
  have hknown := h.known_traffic htraffic
  obtain ⟨hwaiting, hheld, hpast⟩ := Transport.forall_links_iff.1 h.links
  cases htraffic with
  | note event hevent =>
    intro link hlink
    refine (h.links link hlink).cons event ?_
    rintro payload rfl
    exact absurd trivial hevent
  | happen happening =>
    intro link hlink
    rcases Transport.mem_links_happen hlink with ⟨link', hlink', hgrows, hwritten⟩ |
      ⟨hnew, hunheard, hunwritten⟩
    · exact (h.links link' hlink').grow hgrows hwritten
    · have hunknown := not_attended hnames (List.mem_map_of_mem hnew)
      exact .of_untouched (fun hmem => hunknown (hknown (attendance_of_mem hmem rfl))) hunwritten
        hunheard
  | send m payload transport hencode hwrite =>
    obtain ⟨frame, held, hframe, hsome, -, rfl⟩ := Transport.writeFrame_eq_ok hwrite
    rw [h.frameLimit_eq] at hframe
    refine Transport.forall_links_iff.2 ⟨fun link hlink => (hwaiting link hlink).cons _ nofun, ?_,
      fun link hlink => (hpast link hlink).cons _ nofun⟩
    intro link hlink
    obtain rfl := Option.some.inj hlink
    exact (hheld held hsome).send (h.connectionOf_of_held hsome) hencode hframe
  | accept newcomer waiting hwaits hfree =>
    rw [hwaits] at hwaiting
    obtain ⟨hnewcomer, hwaiting⟩ := List.forall_mem_cons.1 hwaiting
    refine Transport.forall_links_iff.2 ⟨fun link hlink => (hwaiting link hlink).cons _ nofun, ?_,
      fun link hlink => (hpast link hlink).cons _ nofun⟩
    intro link hlink
    obtain rfl := Option.some.inj hlink
    exact hnewcomer.cons _ nofun
  | turnAway newcomer closed waiting reject result hwaits hsome hreject hturned =>
    have hclosed := h.turnedAway hexclusive hbefore (by simp [hwaits]) hreject hturned
    have hlater {link : Link} (h : link.Accounted limit l.journal) : link.Accounted limit
        ((result.toOption.map fun _ => Event.rejected newcomer.name).toList ++ l.journal) := by
      cases result with
      | error e => exact h
      | ok link' => exact h.cons (.rejected newcomer.name) nofun
    rw [hwaits] at hwaiting
    obtain ⟨-, hwaiting⟩ := List.forall_mem_cons.1 hwaiting
    exact Transport.forall_links_iff.2 ⟨fun link hlink => hlater (hwaiting link hlink),
      fun link hlink => hlater (hheld link hlink),
      List.forall_mem_cons.2 ⟨hlater hclosed, fun link hlink => hlater (hpast link hlink)⟩⟩
  | take payload transport hread =>
    obtain ⟨held, consumed, hsome, hparse, rfl⟩ := Transport.readFrame_eq_frame hread
    rw [h.frameLimit_eq] at hparse
    have hother {link : Link} (hlink : link ∈ l.transport.waiting ∨ link ∈ l.transport.past) :
        connectionOf l.journal ≠ some link.name := by
      rw [h.connectionOf_of_held hsome]
      exact fun hsame => name_ne_of_held hbefore hsome hlink (Option.some.inj hsame)
    refine Transport.forall_links_iff.2
      ⟨fun link hlink => (hwaiting link hlink).cons _ fun _ _ => hother (.inl hlink), ?_,
        fun link hlink => (hpast link hlink).cons _ fun _ _ => hother (.inr hlink)⟩
    intro link hlink
    obtain rfl := Option.some.inj hlink
    exact (hheld held hsome).take hparse
  | hangUp held hsome =>
    have hclosed := ((hheld held hsome).cons (.closed held.name) nofun).shutDown
    exact Transport.forall_links_iff.2 ⟨fun link hlink => (hwaiting link hlink).cons _ nofun, nofun,
      List.forall_mem_cons.2 ⟨hclosed, fun link hlink => (hpast link hlink).cons _ nofun⟩⟩
  | close hfree =>
    refine Transport.forall_links_iff.2 ⟨List.forall_mem_nil _, hheld, fun link hlink => ?_⟩
    rcases List.mem_append.1 hlink with hshut | hold
    · obtain ⟨link', hlink', rfl⟩ := List.mem_map.1 hshut
      exact (hwaiting link' hlink').shutDown
    · exact hpast link hold

theorem traffic (h : l.Accounted limit) (hexclusive : l.Exclusive)
    (hnames : l'.transport.names.Nodup) (htraffic : Traffic own version l l') :
    l'.Accounted limit where
  frameLimit_eq := htraffic.frameLimit_eq.trans h.frameLimit_eq
  tracked := h.tracked_traffic htraffic
  waiting := h.waiting_traffic htraffic
  known := h.known_traffic htraffic
  nodup := h.nodup_traffic (htraffic.nodup_names hnames) htraffic
  links := h.links_traffic hexclusive hnames htraffic

end Lines.Accounted

/-! ## Answers to handshakes -/

/-- An answer to a handshake is one: an introduction was taken up right before. -/
def Event.Greets (own : String) (version : UInt32) : Event σ → List (Event σ) → Prop
  | .sent m, past => m.payload.kind = .responseHello →
      ∃ peer, answered? own version (.sent m :: past) = some peer
  | _, _ => True

theorem Traffic.greets (htraffic : Traffic own version l l')
    (h : Throughout (Event.Greets own version) l.journal) :
    Throughout (Event.Greets own version) l'.journal := by
  cases htraffic with
  | note event hevent =>
    refine ⟨?_, h⟩
    cases event <;> first | trivial | exact absurd trivial hevent
  | happen | close => exact h
  | send m payload transport hencode hwrite hgreeting => exact ⟨hgreeting, h⟩
  | accept | take | hangUp => exact ⟨trivial, h⟩
  | turnAway newcomer closed waiting reject result =>
    cases result with
    | error => exact h
    | ok => exact ⟨trivial, h⟩

/-! ## Runs -/

namespace Endpoint

variable {app : Application σ} {memory : σ} {dsuid : String} {config : Config}
  {announcer : Option Announcer} {port : UInt16} {e : Endpoint σ}

/-- At every moment of a run the journal accounts for all connections, if they have names of their
own, and every answer to a handshake in it is one. -/
theorem accounted_run (h : start app memory dsuid config announcer port = .ready e)
    (inputs : List (Input σ)) :
    ((e.run inputs).session.transport.names.Nodup →
      (e.run inputs).session.lines.Accounted config.frameLimit) ∧
    Throughout (Event.Greets dsuid config.apiVersion) (e.run inputs).session.journal := by
  have hkept : (e.run inputs).session.lines.Exclusive ∧
      ((e.run inputs).session.transport.names.Nodup →
        (e.run inputs).session.lines.Accounted config.frameLimit) ∧
      Throughout (Event.Greets dsuid config.apiVersion) (e.run inputs).session.journal := by
    refine (traffics_of_moves h (moves_inputs e inputs)).preserve
      (P := fun l => l.Exclusive ∧ (l.transport.names.Nodup → l.Accounted config.frameLimit) ∧
        Throughout (Event.Greets dsuid config.apiVersion) l.journal)
      (fun htraffic h => ⟨h.1.traffic htraffic, fun hnames =>
        (h.2.1 (htraffic.nodup_names hnames)).traffic h.1 hnames htraffic,
        htraffic.greets h.2.2⟩) ?_
    exact ⟨.listen _ _, fun _ => .listen _ _, trivial⟩
  exact hkept.2

end Endpoint

end Vdc
