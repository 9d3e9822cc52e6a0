import Vdc.Proofs.Session.Newcomers
import Vdc.Proofs.Session.Output
import Vdc.Proofs.Session.Sending

/-!
# What is written on connections

The bytes that an endpoint has written on a connection are the frames of the messages that were sent
while it was held, in the order of sending, and nothing else. `deliveries` reads these messages from
a journal, and the invariant `Lines.Delivered` ties them to the bytes. A connection that was never
held got no bytes at all or those of the refusal that turns a newcomer away.

With `Session.sendsWhole`, which tells what each attempt to send comes to, this accounts for every
byte: `Endpoint.writesFrames_run`.
-/

namespace Vdc

variable {σ : Type}

/-- The messages that were sent on each connection that was accepted, in order; the last connection
comes first. -/
def deliveries : List (Event σ) → List (String × List Message)
  | [] => []
  | .accepted link :: past => (link, []) :: deliveries past
  | .sent m :: past =>
    match deliveries past with
    | [] => []
    | (link, messages) :: earlier => (link, messages ++ [m]) :: earlier
  | _ :: past => deliveries past

/-- Some connections got the messages that were sent while each of them was held, as frames. One
that was never held got the refusal at most. -/
inductive Delivered (limit : Nat) : List Link → List (String × List Message) → Prop
  | nil : Delivered limit [] []
  | held {link : Link} {messages : List Message} {links : List Link}
      {earlier : List (String × List Message)} (h : Message.Framed limit messages link.written)
      (hrest : Delivered limit links earlier) :
      Delivered limit (link :: links) ((link.name, messages) :: earlier)
  | unheld {link : Link} {links : List Link} {earlier : List (String × List Message)}
      (h : link.written = [] ∨ Message.Framed limit [.refusal] link.written)
      (hrest : Delivered limit links earlier) : Delivered limit (link :: links) earlier

/-- What happens without the endpoint's doing writes nothing. -/
theorem Transport.written_happen (t : Transport) (happening : Happening) :
    (t.happen happening).held.map Link.written = t.held.map Link.written := by
  have hupdate : ∀ (name : String) (f : Link → Link), (∀ link, (f link).written = link.written) →
      (t.update name f).held.map Link.written = t.held.map Link.written := by
    intro name f hf
    cases hheld : t.held with
    | none => simp only [update, hheld, Option.map_none]
    | some link =>
      simp only [update, hheld, Option.map_some, Option.some.injEq]
      split
      · exact hf link
      · rfl
  cases happening with
  | elapse | arrive => rfl
  | deliver | finish | jam | ease => exact hupdate _ _ fun _ => rfl

/-- A newcomer that is turned away gets the refusal at most. -/
theorem Link.TurnedAway.written_cases {limit : Nat} {newcomer closed : Link}
    (h : newcomer.TurnedAway limit closed) :
    closed.written = [] ∨ Message.Framed limit [.refusal] closed.written := by
  obtain ⟨reject, hreject, -⟩ := Session.exists_rejection
  by_cases hlong : limit < reject.length
  · exact .inl (h.untold reject hreject (.inl hlong)).1
  · cases hwritable : newcomer.writable with
    | false => exact .inl (h.untold reject hreject (.inr hwritable)).1
    | true => exact .inr (h.told reject hreject (Nat.le_of_not_lt hlong) hwritable).1

/-- The bytes on the connections are the frames of the messages that were sent. -/
structure Lines.Delivered (limit : Nat) (l : Lines σ) : Prop where
  frameLimit_eq : l.transport.frameLimit = limit
  held : ∀ link, l.transport.held = some link → ∃ messages earlier,
    deliveries l.journal = (link.name, messages) :: earlier ∧
      Message.Framed limit messages link.written ∧ Vdc.Delivered limit l.transport.past earlier
  unheld : l.transport.held = none → Vdc.Delivered limit l.transport.past (deliveries l.journal)
  complete : (deliveries l.journal).reverse.flatMap Prod.snd =
    (l.journal.filterMap Event.message?).reverse

namespace Lines.Delivered

variable {limit : Nat} {own : String} {version : UInt32} {l l' : Lines σ}

theorem listen (limit ioTimeout : Nat) :
    (⟨.listen limit ioTimeout, []⟩ : Lines σ).Delivered limit where
  frameLimit_eq := rfl
  held := nofun
  unheld _ := .nil
  complete := rfl

/-- Something is noted down that is neither a connection nor a message. -/
theorem note (h : l.Delivered limit) {journal : List (Event σ)}
    (hdeliveries : deliveries journal = deliveries l.journal)
    (hmessages : journal.filterMap Event.message? = l.journal.filterMap Event.message?) :
    { l with journal := journal }.Delivered limit where
  frameLimit_eq := h.frameLimit_eq
  held := hdeliveries.symm ▸ h.held
  unheld := hdeliveries.symm ▸ h.unheld
  complete := by
    rw [hdeliveries, hmessages]
    exact h.complete

theorem happen (h : l.Delivered limit) (happening : Happening) :
    { l with transport := l.transport.happen happening }.Delivered limit := by
  have hgrows := l.transport.grows_happen happening
  have hname := l.transport.name_happen happening
  refine ⟨hgrows.frameLimit.trans h.frameLimit_eq, ?_, ?_, h.complete⟩
  · intro link hlink
    have hwritten := l.transport.written_happen happening
    rw [hlink] at hname hwritten
    obtain ⟨before, hheld, hsame⟩ := Option.map_eq_some_iff.1 hname.symm
    rw [hheld] at hwritten
    rw [← hsame, Option.some.inj hwritten, hgrows.past]
    exact h.held before hheld
  · intro hnone
    rw [hnone] at hname
    rw [hgrows.past]
    exact h.unheld (Option.map_eq_none_iff.1 hname.symm)

/-- A message is sent on the connection that is held. -/
theorem send (h : l.Delivered limit) {m : Message} {payload : List UInt8} {transport : Transport}
    (hencode : m.encode = .ok payload) (hwrite : l.transport.writeFrame payload = .ok transport) :
    Lines.Delivered limit ⟨transport, .sent m :: l.journal⟩ := by
  obtain ⟨frame, link, hframe, hheld, -, rfl⟩ := Transport.writeFrame_eq_ok hwrite
  obtain ⟨messages, earlier, hdeliveries, hframed, hpast⟩ := h.held link hheld
  rw [h.frameLimit_eq] at hframe
  have hsent : deliveries (.sent m :: l.journal) = (link.name, messages ++ [m]) :: earlier := by
    rw [deliveries, hdeliveries]
  refine ⟨h.frameLimit_eq, ?_, nofun, ?_⟩
  · intro link' hlink'
    obtain rfl := Option.some.inj hlink'
    exact ⟨messages ++ [m], earlier, hsent, hframed.append (.single hencode hframe), hpast⟩
  · have hbefore := h.complete
    rw [hdeliveries, List.reverse_cons, List.flatMap_append] at hbefore
    have hmessages : (Event.sent m :: l.journal).filterMap Event.message? =
        m :: l.journal.filterMap Event.message? := rfl
    rw [hsent, hmessages, List.reverse_cons, List.reverse_cons, List.flatMap_append, ← hbefore]
    simp

/-- A connection is accepted, on which nothing was written yet. -/
theorem accept (h : l.Delivered limit) (hfree : l.transport.held = none) {newcomer : Link}
    (hunwritten : newcomer.written = []) (waiting : List Link) :
    Lines.Delivered limit ⟨{ l.transport with waiting := waiting, held := some newcomer },
      .accepted newcomer.name :: l.journal⟩ := by
  refine ⟨h.frameLimit_eq, ?_, nofun, ?_⟩
  · intro link hlink
    obtain rfl := Option.some.inj hlink
    exact ⟨[], deliveries l.journal, rfl, hunwritten ▸ .nil, h.unheld hfree⟩
  · rw [deliveries, List.reverse_cons, List.flatMap_append, h.complete]
    exact List.append_nil _

theorem traffic (h : l.Delivered limit) (hexclusive : l.Exclusive)
    (htraffic : Traffic own version l l') : l'.Delivered limit := by
  cases htraffic with
  | note event hevent => cases event <;> first | exact h.note rfl rfl | exact absurd trivial hevent
  | happen happening => exact h.happen happening
  | send m payload transport hencode hwrite => exact h.send hencode hwrite
  | accept newcomer waiting hwaiting hfree =>
    exact h.accept hfree (hexclusive.unwritten newcomer (by simp [hwaiting])) waiting
  | turnAway newcomer closed waiting reject result hwaiting hheld hreject hturned =>
    have hunwritten := hexclusive.unwritten newcomer (by simp [hwaiting])
    -- The held connection keeps its bytes, and the newcomer is among the past ones from now on.
    have haway := l.transport.turnedAway hreject hunwritten
    rw [hturned, h.frameLimit_eq] at haway
    have hnoted : { l with journal := (result.toOption.map fun _ =>
        Event.rejected newcomer.name).toList ++ l.journal }.Delivered limit := by
      cases result with
      | error => exact h.note rfl rfl
      | ok => exact h.note rfl rfl
    refine ⟨h.frameLimit_eq, ?_, fun hnone => absurd hnone hheld, hnoted.complete⟩
    intro link hlink
    obtain ⟨messages, earlier, hdeliveries, hframed, hpast⟩ := hnoted.held link hlink
    exact ⟨messages, earlier, hdeliveries, hframed, .unheld haway.written_cases hpast⟩
  | take payload transport hread =>
    obtain ⟨link, consumed, hheld, -, rfl⟩ := Transport.readFrame_eq_frame hread
    refine ⟨h.frameLimit_eq, ?_, nofun, h.complete⟩
    intro link' hlink'
    obtain rfl := Option.some.inj hlink'
    exact h.held link hheld
  | hangUp link hheld =>
    obtain ⟨messages, earlier, hdeliveries, hframed, hpast⟩ := h.held link hheld
    have hclosed : Vdc.Delivered limit (link.shutDown :: l.transport.past)
        (deliveries l.journal) := hdeliveries ▸ .held hframed hpast
    exact ⟨h.frameLimit_eq, nofun, fun _ => hclosed, h.complete⟩
  | close hfree =>
    refine ⟨h.frameLimit_eq, fun link hlink => ?_, fun _ => ?_, h.complete⟩
    · cases hfree.symm.trans hlink
    · have hunwritten := hexclusive.unwritten
      have hpast := h.unheld hfree
      dsimp only
      -- Those that still waited are past now as well, and nothing was written on them.
      generalize l.transport.waiting = waiting at hunwritten ⊢
      induction waiting with
      | nil => exact hpast
      | cons newcomer rest ih =>
        obtain ⟨hfirst, hrest⟩ := List.forall_mem_cons.1 hunwritten
        exact .unheld (.inl hfirst) (ih hrest)

end Lines.Delivered

/-! ## Runs -/

namespace Endpoint

variable {app : Application σ} {memory : σ} {dsuid : String} {config : Config}
  {announcer : Option Announcer} {port : UInt16} {e : Endpoint σ}

/-- The bytes that an endpoint has written on each connection are the frames of the messages that
were sent on it. -/
structure WritesFrames (limit : Nat) (e : Endpoint σ) : Prop where
  /-- The connection that is held got the messages that were sent since it was accepted, in order,
  and each one before it those of its time, or the refusal at most if it was turned away. -/
  held : ∀ link, e.session.transport.held = some link → ∃ messages earlier,
    deliveries e.session.journal = (link.name, messages) :: earlier ∧
      Message.Framed limit messages link.written ∧ Delivered limit e.session.transport.past earlier
  /-- If none is held, this is so for those before. -/
  unheld : e.session.transport.held = none →
    Delivered limit e.session.transport.past (deliveries e.session.journal)
  /-- Nothing was written on a connection that waits. -/
  waiting : ∀ link ∈ e.session.transport.waiting, link.written = []
  /-- No message was sent but on these connections. -/
  complete : (deliveries e.session.journal).reverse.flatMap Prod.snd =
    (e.session.journal.filterMap Event.message?).reverse

/-- Whatever an endpoint takes after its start, all that it writes on a connection is the frames of
the messages that it sends. -/
theorem framed_run (h : start app memory dsuid config announcer port = .ready e)
    (inputs : List (Input σ)) : (e.run inputs).WritesFrames config.frameLimit := by
  have hkept : (e.run inputs).session.lines.Exclusive ∧
      (e.run inputs).session.lines.Delivered config.frameLimit := by
    refine (traffics_of_moves h (moves_inputs e inputs)).preserve
      (P := fun l => l.Exclusive ∧ l.Delivered config.frameLimit) ?_ ⟨.listen _ _, .listen _ _⟩
    intro l l' htraffic hl
    exact ⟨hl.1.traffic htraffic, hl.2.traffic hl.1 htraffic⟩
  exact ⟨hkept.2.held, hkept.2.unheld, hkept.1.unwritten, hkept.2.complete⟩

/-- All that an endpoint writes on a connection is the frames of the messages that it sends, one
after the other, and a send that fails writes nothing and changes nothing. -/
theorem writesFrames_run (h : start app memory dsuid config announcer port = .ready e)
    (inputs : List (Input σ)) :
    (e.run inputs).WritesFrames config.frameLimit ∧ ∀ s : Session σ, s.SendsWhole :=
  ⟨framed_run h inputs, Session.sendsWhole⟩

/-- A device vanishes while the connection takes no bytes and again when it does, and the connection
ends. -/
theorem writesFrames_run_jam :
    ∃ e : Endpoint Unit, start .default () "own" .default none 0 = .ready e ∧
      ∃ inputs, deliveries (e.run inputs).session.journal =
          [("peer", [⟨1, .responseHello "own"⟩, .notification (.vanish "D")])] ∧
        (e.run inputs).session.transport.past.map Link.name = ["peer"] ∧
        (e.run inputs).WritesFrames Config.default.frameLimit := by
  have h : start .default () "own" .default none 0 =
      .ready ⟨.default, Session.new "own" .default () 0, none, false⟩ := rfl
  refine ⟨_, h, [.arrive (.fresh "peer"), .work,
    .deliver "peer" (frameOf ⟨1, .requestHello ⟨some "P", some 2⟩⟩), .work,
    .jam "peer", .perform (.tell (.vanished "D")),
    .happen (.ease "peer"), .perform (.tell (.vanished "D")), .finish "peer", .work],
    by decide +kernel, by decide +kernel, ?_⟩
  exact (writesFrames_run h _).1

end Endpoint

end Vdc
