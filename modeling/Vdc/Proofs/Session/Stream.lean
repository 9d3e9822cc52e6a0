import Vdc.Proofs.Session.Completion

/-!
# What is read from connections

The payloads that an endpoint takes up are those of the frames in what its peers sent. On each
connection they are taken off the front of the stream one after the other, none twice and none left
out, and never from what another connection sent. Where the stream has no frame and can get none any
more, the connection ends.

`conversations` reads from a journal what was taken up on each connection. The invariant
`Session.Streamed` ties it to the bytes that came over the connections.
-/

namespace Vdc

/-! ## What was taken up -/

variable {σ : Type}

/-- The payload that was taken up. -/
def Event.payload? : Event σ → Option (List UInt8)
  | .handled payload => some payload
  | _ => none

/-- An event that neither begins a conversation nor goes on with one. -/
def Event.IsAside : Event σ → Prop
  | .accepted _ | .handled _ => False
  | _ => True

theorem Event.IsParting.isAside {event : Event σ} (h : event.IsParting) : event.IsAside := by
  cases event <;> trivial

/-- The payloads that were taken up on each connection that was accepted, in order; the last
connection comes first. -/
def conversations : List (Event σ) → List (String × List (List UInt8))
  | [] => []
  | .accepted link :: past => (link, []) :: conversations past
  | .handled payload :: past =>
    match conversations past with
    | [] => []
    | (link, payloads) :: earlier => (link, payloads ++ [payload]) :: earlier
  | _ :: past => conversations past

theorem conversations_append {new : List (Event σ)} (hnew : ∀ event ∈ new, event.IsAside)
    (past : List (Event σ)) : conversations (new ++ past) = conversations past := by
  induction new with
  | nil => rfl
  | cons event rest ih =>
    have hevent := hnew event List.mem_cons_self
    have hrest := ih fun event hevent => hnew event (List.mem_cons_of_mem _ hevent)
    cases event <;> first | exact hrest | exact hevent.elim

/-- What was taken up on a connection is what was taken off the front of the bytes that came over
it. -/
def Link.Yielded (limit : Nat) (conversation : String × List (List UInt8)) (link : Link) : Prop :=
  link.name = conversation.1 ∧ Frame.Taken limit link.arrived conversation.2 link.unread

theorem Link.Yielded.grows {limit : Nat} {conversation : String × List (List UInt8)}
    {link link' : Link} (h : link.Yielded limit conversation) (hgrows : link.Grows link') :
    link'.Yielded limit conversation := by
  obtain ⟨hname, more, harrived, hunread⟩ := hgrows
  refine ⟨hname.trans h.1, ?_⟩
  rw [harrived, hunread]
  exact h.2.append more

namespace Session

theorem Act.grows {s s' : Session σ} (h : Act s s') : s.transport.Grows s'.transport := by
  have hsent {s s' : Session σ} {m : Message} (h : s.transmit m = .ok s') :
      s.transport.Grows s'.transport := by
    obtain ⟨payload, transport, -, hwrite, rfl⟩ := transmit_eq_ok h
    exact Transport.grows_writeFrame hwrite
  cases h with
  | remember | inspect => exact .refl _
  | happen happening => exact s.transport.grows_happen happening
  | send what =>
    rcases s.send_cases what with h | ⟨m, -, h⟩
    · rw [h]
      exact .refl _
    · exact hsent h
  | announce subject completion =>
    rcases s.announce_cases subject completion with ⟨e, h⟩ | ⟨s', ht, h⟩
    · rw [h]
      exact .refl _
    · have hannounced : s.transport.Grows s'.transport :=
        hsent (s := { s with lastId := s.nextId }) ht
      rcases h with ⟨e, -, h⟩ | ⟨pending, -, h⟩ <;> rw [h] <;> exact hannounced

/-- The payload that was taken up came from the connection that was held then. -/
def OfConversation : Event σ → List (Event σ) → Prop
  | .handled _, past =>
    ∃ link payloads earlier, connectionOf past = some link ∧
      conversations past = (link, payloads) :: earlier
  | _, _ => True

/-- What was taken up since the connections of some old conversations is what was taken off the
front of the bytes that came over each connection, the held one and those that were held before. -/
structure Streamed (limit : Nat) (old : List (String × List (List UInt8))) (s : Session σ) :
    Prop where
  frameLimit_eq : s.transport.frameLimit = limit
  waiting : ∀ link ∈ s.transport.waiting, link.IsUnheard
  yielded : ∃ recent closed, conversations s.journal = recent ++ old ∧
    closed.Sublist s.transport.past ∧
    List.Forall₂ (fun conversation link => link.Yielded limit conversation) recent
      (s.transport.held.toList ++ closed)
  handled : Throughout OfConversation s.journal

namespace Streamed

variable {limit : Nat} {old : List (String × List (List UInt8))} {s s' : Session σ}

/-- The last conversation is that of the held connection. -/
theorem of_held (h : s.Streamed limit old) {link : Link} (hheld : s.transport.held = some link) :
    ∃ payloads recent closed,
      conversations s.journal = (link.name, payloads) :: recent ++ old ∧
        Frame.Taken limit link.arrived payloads link.unread ∧ closed.Sublist s.transport.past ∧
        List.Forall₂ (fun conversation link => link.Yielded limit conversation) recent closed := by
  obtain ⟨recent, closed, hjournal, hclosed, hyielded⟩ := h.yielded
  rw [hheld, Option.toList_some, List.singleton_append, List.forall₂_cons_right_iff] at hyielded
  obtain ⟨⟨name, payloads⟩, earlier, ⟨hname, htaken⟩, hrest, rfl⟩ := hyielded
  dsimp only at hname
  exact ⟨payloads, earlier, closed, hname ▸ hjournal, htaken, hclosed, hrest⟩

/-- Nothing is taken up while bytes arrive and scripts run. -/
theorem grow (h : s.Streamed limit old) (hgrows : s.transport.Grows s'.transport)
    (hnotes : Notes Event.IsAside s s') : s'.Streamed limit old := by
  obtain ⟨new, hjournal, hnew⟩ := hnotes
  obtain ⟨grow, hheld, hgrow⟩ := hgrows.held
  refine ⟨hgrows.frameLimit.trans h.frameLimit_eq, hgrows.waiting h.waiting, ?_, ?_⟩
  · rw [hjournal, conversations_append hnew, hheld, hgrows.past]
    cases hlink : s.transport.held with
    | none => simpa only [hlink, Option.map_none] using h.yielded
    | some link =>
      obtain ⟨payloads, recent, closed, hrecent, htaken, hclosed, hyielded⟩ := h.of_held hlink
      have hlast : (grow link).Yielded limit (link.name, payloads) :=
        Link.Yielded.grows ⟨rfl, htaken⟩ (hgrow link)
      exact ⟨_, closed, hrecent, hclosed, .cons hlast hyielded⟩
  · rw [hjournal]
    refine h.handled.append fun event hevent past => ?_
    have hside := hnew event hevent
    cases event <;> trivial

/-- One event is noted down that has no part in a conversation. -/
theorem note (h : s.Streamed limit old) (event : Event σ) (hevent : event.IsAside) :
    (s.note event).Streamed limit old := h.grow (.refl _) (.single event hevent rfl)

/-- Connections that were closed are added to those before, and those that wait become fewer. -/
theorem close (h : s.Streamed limit old) (waiting closed : List Link)
    (hwaiting : waiting ⊆ s.transport.waiting) :
    { s with transport := { s.transport with
      waiting := waiting, past := closed ++ s.transport.past } }.Streamed limit old where
  frameLimit_eq := h.frameLimit_eq
  waiting link hlink := h.waiting link (hwaiting hlink)
  yielded := by
    obtain ⟨recent, closed', hrecent, hclosed, hyielded⟩ := h.yielded
    exact ⟨recent, closed', hrecent, hclosed.trans (List.sublist_append_right _ _), hyielded⟩
  handled := h.handled

/-- The next frame is taken off the stream of the held connection. -/
theorem taken (h : s.Streamed limit old) (htracked : s.Tracked) {payload : List UInt8}
    {transport : Transport} (hread : s.transport.readFrame = (.frame payload, transport)) :
    (s.taken payload transport).Streamed limit old := by
  obtain ⟨link, consumed, hheld, hparse, rfl⟩ := Transport.readFrame_eq_frame hread
  obtain ⟨payloads, recent, closed, hrecent, htaken, hclosed, hyielded⟩ := h.of_held hheld
  rw [h.frameLimit_eq] at hparse
  refine ⟨h.frameLimit_eq, h.waiting,
    ⟨(link.name, payloads ++ [payload]) :: recent, closed, ?_, hclosed,
      .cons ⟨rfl, htaken.snoc hparse⟩ hyielded⟩, ⟨?_, h.handled⟩⟩
  · simp only [Session.taken, Session.note, conversations, hrecent, List.cons_append]
  · exact ⟨link.name, payloads, recent ++ old, by rw [htracked, hheld, Option.map_some], hrecent⟩

/-- A connection that ends takes its conversation along. -/
theorem resetTransport (h : s.Streamed limit old) : s.resetTransport.Streamed limit old := by
  unfold Session.resetTransport
  split
  · next link hheld =>
    obtain ⟨payloads, recent, closed, hrecent, htaken, hclosed, hyielded⟩ := h.of_held hheld
    simp only [Transport.reset, hheld]
    exact ⟨h.frameLimit_eq, h.waiting, ⟨(link.name, payloads) :: recent, link.shutDown :: closed,
      hrecent, hclosed.cons_cons _, .cons ⟨rfl, htaken⟩ hyielded⟩, ⟨trivial, h.handled⟩⟩
  · exact h

/-- The conversation of a connection that is accepted begins. -/
theorem accept (h : s.Streamed limit old) {newcomer : Link} {waiting : List Link}
    (hwaiting : s.transport.waiting = newcomer :: waiting) (hnone : s.transport.held = none) :
    ({ s with
      transport := { s.transport with waiting := waiting, held := some newcomer }
      state := .connected }.note (.accepted newcomer.name)).Streamed limit old := by
  obtain ⟨recent, closed, hrecent, hclosed, hyielded⟩ := h.yielded
  rw [hnone, Option.toList_none, List.nil_append] at hyielded
  have hnewcomer : newcomer.IsUnheard := h.waiting newcomer (by simp [hwaiting])
  have hrest : ∀ link ∈ waiting, link.IsUnheard := fun link hlink =>
    h.waiting link (by simp [hwaiting, hlink])
  have hfirst : newcomer.Yielded limit (newcomer.name, []) := by
    refine ⟨rfl, ?_⟩
    rw [hnewcomer]
    exact .none _
  exact ⟨h.frameLimit_eq, hrest, ⟨(newcomer.name, []) :: recent, closed,
    congrArg (List.cons _) hrecent, hclosed, .cons hfirst hyielded⟩, ⟨trivial, h.handled⟩⟩

theorem move {m m' : Moment σ} (h : m.session.Streamed limit old) (htracked : m.session.Tracked)
    (hmove : Move m m') : m'.session.Streamed limit old := by
  cases hmove with
  | act owed hact => exact h.grow hact.grows (hact.notes.mono fun _ h => h.1.isParting.isAside)
  | finish s request expiry => exact h.note (.completed _ _ _ _) trivial
  | sweep s => exact (h.note (.swept s.clock) trivial).grow (.refl _) (.of_eq rfl)
  | call | farewell => exact h.note (.called _ _) trivial
  | accept s newcomer waiting hwaiting hnone => exact h.accept hwaiting hnone
  | turnAway s newcomer closed waiting hwaiting =>
    exact h.close waiting [closed] (by simp [hwaiting])
  | reject s newcomer closed waiting hwaiting =>
    exact (h.close waiting [closed] (by simp [hwaiting])).note (.rejected _) trivial
  | take s payload transport hread => exact h.taken htracked hread
  | answer s payload transport id code request hread =>
    have hanswered : { s.taken payload transport with
        pending := (s.pending.take id).2 }.Streamed limit old :=
      (h.taken htracked hread).grow (.refl _) (.of_eq rfl)
    exact hanswered.note (.completed _ _ _ _) trivial
  | @greet s s' id hello peer hasked hcheck hs =>
    obtain ⟨_, transport, -, hwrite, rfl⟩ := transmit_eq_ok hs
    have hopened : (({ s with transport := transport }.note
        (.sent ⟨id, .responseHello s.dsuid⟩)).opened peer).Streamed limit old :=
      h.grow (Transport.grows_writeFrame hwrite) (.single (.sent _) trivial rfl)
    exact hopened.note (.called .hello _) trivial
  | hangUp s => exact h.resetTransport.grow (.refl _) (.of_eq rfl)
  | withdraw s hnone =>
    have hreset : s.transport.reset = s.transport := by simp only [Transport.reset, hnone]
    have hclosed := h.close [] (s.transport.waiting.map Link.shutDown) (List.nil_subset _)
    simp only [Transport.close, hreset]
    refine hclosed.grow ⟨rfl, rfl, rfl, ⟨id, ?_, fun _ => .of_eq rfl rfl rfl⟩, id⟩
      (.single .withdrawn trivial rfl)
    exact (congrFun Option.map_id _).symm

end Streamed

/-! ## What one input takes up -/

/-- Some payloads are taken up, of which the last comes first. -/
def TakesUp (payloads : List (List UInt8)) (s s' : Session σ) : Prop :=
  ∃ new, s'.journal = new ++ s.journal ∧ new.filterMap Event.payload? = payloads

namespace TakesUp

variable {payloads : List (List UInt8)} {s s' s'' : Session σ}

theorem of_eq (h : s'.journal = s.journal) : TakesUp [] s s' := ⟨[], h, rfl⟩

theorem of_notes (h : Notes Event.IsRoutine s s') : TakesUp [] s s' := by
  obtain ⟨new, hjournal, hnew⟩ := h
  refine ⟨new, hjournal, List.filterMap_eq_nil_iff.2 fun event hevent => ?_⟩
  have hroutine := hnew event hevent
  cases event <;> first | rfl | exact hroutine.elim

/-- Nothing is taken up after the payloads. -/
theorem trans (h : TakesUp payloads s s') (h' : TakesUp [] s' s'') : TakesUp payloads s s'' := by
  obtain ⟨new, hjournal, hpayloads⟩ := h
  obtain ⟨new', hjournal', hnone⟩ := h'
  refine ⟨new' ++ new, by rw [hjournal', hjournal, List.append_assoc], ?_⟩
  rw [List.filterMap_append, hnone, List.nil_append, hpayloads]

/-- Nothing is taken up before the payloads. -/
theorem after (h : TakesUp payloads s' s'') (h' : TakesUp [] s s') : TakesUp payloads s s'' := by
  obtain ⟨new, hjournal, hnone⟩ := h'
  obtain ⟨new', hjournal', hpayloads⟩ := h
  refine ⟨new' ++ new, by rw [hjournal', hjournal, List.append_assoc], ?_⟩
  rw [List.filterMap_append, hnone, List.append_nil, hpayloads]

end TakesUp

theorem takesUp_disconnect (s : Session σ) : TakesUp [] s s.disconnect.2 :=
  .of_notes (s.notes_disconnect.mono fun _ h => h.isRoutine)

theorem takesUp_handle (app : Application σ) (s : Session σ) (payload : List UInt8) :
    TakesUp [payload] s (s.handle app payload) :=
  TakesUp.trans ⟨[.handled payload], rfl, rfl⟩ (.of_notes (notes_obey app _ _))

/-! ## Reading in a work cycle -/

/-- Whoever is accepted while a connection is held is turned away, which changes nothing but the
lists of the other connections and the journal. -/
theorem acceptIncoming_of_held {s : Session σ} {link : Link}
    (hheld : s.transport.held = some link) :
    ∃ waiting past new, (new = [] ∨ ∃ name, new = [.rejected name]) ∧
      s.acceptIncoming = { s with
        transport := { s.transport with waiting := waiting, past := past }
        journal := new ++ s.journal } := by
  unfold acceptIncoming
  split
  · exact ⟨_, _, [], .inl rfl, rfl⟩
  · next reject _ =>
    rcases s.transport.accept_cases reject with
      ⟨e, h⟩ | ⟨newcomer, waiting, -, ⟨hnone, -⟩ | ⟨-, h⟩⟩
    · simp only [h]
      exact ⟨_, _, [], .inl rfl, rfl⟩
    · rw [hnone] at hheld
      cases hheld
    · rcases hturned : s.transport.turnAway reject newcomer with ⟨error | link', closed⟩ <;>
        simp only [h, hturned, Except.map]
      · exact ⟨_, _, [], .inl rfl, rfl⟩
      · exact ⟨_, _, _, .inr ⟨newcomer.name, rfl⟩, rfl⟩

theorem past_run (script : Script σ) (s : Session σ) :
    (run script s).transport.past = s.transport.past := by
  have h := acts_run script s
  generalize run script s = s' at h ⊢
  induction h with
  | refl => rfl
  | tail _ hlast ih => exact hlast.grows.past.trans ih

theorem past_abandon (requests : List (PendingRequest (Outcome → Script σ) × Expiry))
    (s : Session σ) : (s.abandon requests).transport.past = s.transport.past := by
  induction requests generalizing s with
  | nil => rfl
  | cons request rest ih => exact (ih _).trans (past_run _ _)

/-- The connection that ends is the last one among those that were closed. -/
theorem past_disconnect {s : Session σ} {link : Link} (hheld : s.transport.held = some link) :
    s.disconnect.2.transport.past = link.shutDown :: s.transport.past := by
  have hreset : s.resetTransport.transport.past = link.shutDown :: s.transport.past := by
    simp only [Session.resetTransport, hheld, Session.note, Transport.reset]
  exact (past_abandon _ _).trans hreset

end Session

namespace Endpoint

open Session

theorem notes_meanwhile (meanwhile : List Happening) (s : Session σ) :
    Notes Event.IsRoutine s.sweep (meanwhile.foldl Session.happen s.sweep) := by
  refine .of_eq ?_
  generalize s.sweep = s
  induction meanwhile generalizing s with
  | nil => rfl
  | cons happening rest ih => exact ih _

/-- A work cycle reads from the session that it has come to, or does not read, and nothing was taken
up before. -/
theorem workSession_cases (app : Application σ) (meanwhile : List Happening) (s : Session σ) :
    ∃ s', Notes Event.IsRoutine s s' ∧
      (workSession app meanwhile s = s' ∨ workSession app meanwhile s = receive app s') := by
  have hbefore := s.notes_sweep.trans (notes_meanwhile meanwhile s)
  generalize hs : meanwhile.foldl Session.happen s.sweep = s' at hbefore
  simp only [workSession, hs]
  cases s'.transport.poll.incoming <;> cases s'.transport.poll.readable <;>
    simp only [if_true, Bool.false_eq_true, if_false]
  · exact ⟨s', hbefore, .inl rfl⟩
  · exact ⟨s', hbefore, .inr rfl⟩
  · exact ⟨_, hbefore.trans (notes_acceptIncoming s'), .inl rfl⟩
  · exact ⟨_, hbefore.trans (notes_acceptIncoming s'), .inr rfl⟩

/-- A work cycle that finds the held connection readable reads from it. -/
theorem workSession_of_readable (app : Application σ) (meanwhile : List Happening) (s : Session σ)
    {link : Link} (hheld : (meanwhile.foldl Session.happen s.sweep).transport.held = some link)
    (hreadable : link.isReadable = true) :
    ∃ s', workSession app meanwhile s = receive app s' ∧ s'.transport.held = some link ∧
      s'.settings = s.settings ∧ TakesUp [] s s' := by
  have hmoves := (moves_sweep s).trans (moves_meanwhile meanwhile s.sweep)
  have hbefore := s.notes_sweep.trans (notes_meanwhile meanwhile s)
  generalize hs : meanwhile.foldl Session.happen s.sweep = s' at *
  have hready : s'.transport.poll.readable = true := by
    simpa only [Transport.poll, hheld, Option.any_some] using hreadable
  simp only [workSession, hs, hready, if_true]
  by_cases hincoming : s'.transport.poll.incoming = true
  · obtain ⟨waiting, past, new, -, haccepted⟩ := acceptIncoming_of_held hheld
    refine ⟨s'.acceptIncoming, by rw [if_pos hincoming], by rw [haccepted]; exact hheld, ?_,
      .of_notes (hbefore.trans (notes_acceptIncoming s'))⟩
    exact Moves.settings_eq (hmoves.trans (moves_acceptIncoming s'))
  · exact ⟨s', by rw [if_neg hincoming], hheld, Moves.settings_eq hmoves, .of_notes hbefore⟩

/-- A connection with a frame at the front of what is unread is readable. -/
theorem isReadable_of_complete {limit consumed : Nat} {link : Link} {payload : List UInt8}
    (h : Frame.parse limit link.unread = .complete payload consumed) : link.isReadable = true := by
  simp only [Link.isReadable, Bool.or_eq_true, Bool.not_eq_true']
  refine .inl (List.isEmpty_eq_false_iff.2 ?_)
  rintro hempty
  rw [hempty] at h
  cases h

/-- A work cycle takes up the frame at the front of what is unread. -/
theorem takesUp_workSession_of_complete (app : Application σ) (meanwhile : List Happening)
    (s : Session σ) {link : Link} {payload : List UInt8} {consumed : Nat}
    (hheld : (meanwhile.foldl Session.happen s.sweep).transport.held = some link)
    (hparse : Frame.parse s.transport.frameLimit link.unread = .complete payload consumed) :
    TakesUp [payload] s (workSession app meanwhile s) := by
  obtain ⟨s', hwork, hlink, hs, hbefore⟩ :=
    workSession_of_readable app meanwhile s hheld (isReadable_of_complete hparse)
  simp only [Session.settings, Prod.mk.injEq] at hs
  have hread := Transport.readFrame_of_complete hlink (hs.2.2.1 ▸ hparse)
  rw [hwork, receive, hread]
  exact TakesUp.after (takesUp_handle _ { s' with transport := _ } payload) hbefore

/-- A work cycle that reads from a stream at fault fails to, and ends the connection. -/
theorem workSession_of_fault (app : Application σ) (meanwhile : List Happening) (s : Session σ)
    {link : Link} {error : Error}
    (hheld : (meanwhile.foldl Session.happen s.sweep).transport.held = some link)
    (hreadable : link.isReadable = true)
    (hfault : link.fault? s.transport.frameLimit s.transport.ioTimeout = some error) :
    ∃ s' : Session σ, s'.transport.readFrame = (.failed error, s'.transport.reset) ∧
      s'.transport.held = some link ∧ workSession app meanwhile s = s'.disconnect.2 ∧
      TakesUp [] s s'.disconnect.2 := by
  obtain ⟨s', hwork, hlink, hs, hbefore⟩ :=
    workSession_of_readable app meanwhile s hheld hreadable
  simp only [Session.settings, Prod.mk.injEq] at hs
  have hread : s'.transport.readFrame = (.failed error, s'.transport.reset) :=
    Transport.readFrame_of_fault hlink (by rwa [hs.2.2.1, hs.2.2.2])
  refine ⟨s', hread, hlink, ?_, hbefore.trans (takesUp_disconnect s')⟩
  rw [hwork, receive, hread]

/-- Reading takes up one payload or none. -/
theorem takesUp_receive (app : Application σ) (s : Session σ) :
    ∃ payloads, TakesUp payloads s (receive app s) ∧ payloads.length ≤ 1 := by
  unfold receive
  split
  · next payload transport _ =>
    exact ⟨[payload], takesUp_handle app { s with transport := transport } payload, Nat.le_refl _⟩
  · exact ⟨[], takesUp_disconnect s, Nat.zero_le _⟩
  · exact ⟨[], .of_eq rfl, Nat.zero_le _⟩

/-- A work cycle takes up one payload or none, and no other input takes up any. -/
theorem takesUp_step (e : Endpoint σ) (input : Input σ) :
    ∃ payloads, TakesUp payloads e.session (e.step input).2.session ∧
      payloads.length ≤ if input matches .work _ then 1 else 0 := by
  cases input with
  | perform script =>
    exact ⟨[], .of_notes ((notes_run script e.session).mono fun _ h => h.isParting.isRoutine),
      Nat.le_refl _⟩
  | happen happening => exact ⟨[], .of_eq rfl, Nat.le_refl _⟩
  | close =>
    refine ⟨[], ?_, Nat.le_refl _⟩
    simp only [step, close]
    split
    · exact .of_eq rfl
    · exact (takesUp_disconnect e.session).trans ⟨[.withdrawn], rfl, rfl⟩
  | work meanwhile =>
    simp only [step, work]
    split
    · exact ⟨[], .of_eq rfl, Nat.zero_le _⟩
    · obtain ⟨s', hbefore, h | h⟩ := workSession_cases e.application meanwhile e.session <;>
        simp only [h]
      · exact ⟨[], .of_notes hbefore, Nat.zero_le _⟩
      · obtain ⟨payloads, hpayloads, hlength⟩ := takesUp_receive e.application s'
        exact ⟨payloads, hpayloads.after (.of_notes hbefore), hlength⟩

variable {app : Application σ} {memory : σ} {dsuid : String} {config : Config}
  {announcer : Option Announcer} {port : UInt16} {e : Endpoint σ}

/-- What an endpoint reads on its connections is what the frames of their streams hold. -/
structure ReadsFrames (config : Config) (e : Endpoint σ) : Prop where
  /-- What was taken up on a connection, the held one or one that was held before, is a part of the
  payloads of all its frames, from the first one on; those that follow are the payloads of the
  frames in what is unread. This is so whatever else the peer sends. -/
  payloads_eq : ∃ closed, closed.Sublist e.session.transport.past ∧
    List.Forall₂ (fun conversation (link : Link) =>
        link.name = conversation.1 ∧ link.unread <:+ link.arrived ∧
          ∀ more, Frame.payloads config.frameLimit (link.arrived ++ more) =
            conversation.2 ++ Frame.payloads config.frameLimit (link.unread ++ more))
      (conversations e.session.journal) (e.session.transport.held.toList ++ closed)
  /-- A payload is taken up on the connection that is held then. -/
  ofHeld : ∀ payload past, .handled payload :: past <:+ e.session.journal →
    ∃ link payloads earlier, connectionOf past = some link ∧
      conversations past = (link, payloads) :: earlier
  /-- A connection that has ended is not read from any more. -/
  final : e.session.transport.held = none → ∀ inputs, ∃ later,
    conversations (e.run inputs).session.journal = later ++ conversations e.session.journal
  /-- A work cycle takes up one payload at most, and nothing else takes up any. -/
  atMostOne : ∀ input, ∃ payloads, TakesUp payloads e.session (e.step input).2.session ∧
    payloads.length ≤ if input matches .work _ then 1 else 0
  /-- A work cycle takes up the frame at the front of what is unread. -/
  frame : ∀ meanwhile link payload consumed,
    (meanwhile.foldl Session.happen e.session.sweep).transport.held = some link →
    Frame.parse config.frameLimit link.unread = .complete payload consumed →
      TakesUp [payload] e.session (e.step (.work meanwhile)).2.session
  /-- A work cycle ends the connection if what is unread is at fault. -/
  fault : ∀ meanwhile link error,
    (meanwhile.foldl Session.happen e.session.sweep).transport.held = some link →
    link.isReadable = true → link.fault? config.frameLimit config.ioTimeout = some error →
      ∃ s : Session σ, s.transport.readFrame = (.failed error, s.transport.reset) ∧
        s.transport.held = some link ∧ (e.step (.work meanwhile)).2.session = s.disconnect.2 ∧
        s.disconnect.2.transport.held = none ∧ s.disconnect.2.state = .disconnected ∧
        s.disconnect.2.pending.size = 0 ∧
        s.disconnect.2.transport.past.head? = some link.shutDown ∧
        TakesUp [] e.session s.disconnect.2

/-- At every moment of a run what was taken up is what was taken off the streams. -/
theorem streamed_run (h : start app memory dsuid config announcer port = .ready e)
    (inputs : List (Input σ)) :
    (e.run inputs).session.Tracked ∧ (e.run inputs).session.Streamed config.frameLimit [] ∧
      (e.run inputs).session.settings = e.session.settings := by
  have hmoves := moves_inputs e inputs
  have hkept : (e.run inputs).session.Tracked ∧
      (e.run inputs).session.Streamed config.frameLimit [] := by
    refine hmoves.preserve
      (P := fun m => m.session.Tracked ∧ m.session.Streamed config.frameLimit [])
      (fun hmove h => ⟨h.1.move hmove, h.2.move h.1 hmove⟩) ?_
    rw [(of_start h).1]
    exact ⟨rfl, rfl, by simp [Session.new, Transport.listen],
      ⟨[], [], rfl, List.nil_sublist _, .nil⟩, trivial⟩
  exact ⟨hkept.1, hkept.2, hmoves.settings_eq⟩

/-- Between two connections, the conversations so far are old ones. -/
theorem conversations_run_of_unheld {limit : Nat} (htracked : e.session.Tracked)
    (hstreamed : e.session.Streamed limit []) (hnone : e.session.transport.held = none)
    (inputs : List (Input σ)) : ∃ later,
      conversations (e.run inputs).session.journal = later ++ conversations e.session.journal := by
  have hkept : (e.run inputs).session.Tracked ∧
      (e.run inputs).session.Streamed limit (conversations e.session.journal) := by
    refine (moves_inputs e inputs).preserve
      (P := fun m => m.session.Tracked ∧
        m.session.Streamed limit (conversations e.session.journal))
      (fun hmove h => ⟨h.1.move hmove, h.2.move h.1 hmove⟩) ⟨htracked, hstreamed.frameLimit_eq,
        hstreamed.waiting, ⟨[], [], rfl, List.nil_sublist _, ?_⟩, hstreamed.handled⟩
    rw [hnone]
    exact .nil
  obtain ⟨recent, -, hrecent, -⟩ := hkept.2.yielded
  exact ⟨recent, hrecent⟩

theorem unheld_meanwhile {s : Session σ} (hs : s.transport.held = none)
    (meanwhile : List Happening) :
    (meanwhile.foldl Session.happen s).transport.held = none := by
  induction meanwhile generalizing s with
  | nil => exact hs
  | cons happening rest ih => exact ih ((Act.happen s happening).of_unheld hs).1

/-- An endpoint whose work cycle finds a connection is open. -/
theorem isClosed_of_held (he : e.isClosed = true → e.session.transport.held = none)
    {meanwhile : List Happening} {link : Link}
    (hheld : (meanwhile.foldl Session.happen e.session.sweep).transport.held = some link) :
    e.isClosed = false := by
  by_contra hclosed
  have hsweep : e.session.sweep.transport.held = none :=
    (abandon_of_unheld _ (s := { e.session.note (.swept e.session.clock) with pending := _ })
      (he (by simpa using hclosed))).1
  rw [unheld_meanwhile hsweep] at hheld
  cases hheld

theorem session_work (hopen : e.isClosed = false) (meanwhile : List Happening) :
    (e.step (.work meanwhile)).2.session = workSession e.application meanwhile e.session := by
  simp [step, work, hopen]

/-- What an endpoint reads on its connections is what the frames of their streams hold, whatever it
takes after its start. -/
theorem readsFrames_run (h : start app memory dsuid config announcer port = .ready e)
    (inputs : List (Input σ)) : (e.run inputs).ReadsFrames config := by
  obtain ⟨htracked, hstreamed, hsettings⟩ := streamed_run h inputs
  have hopen {meanwhile : List Happening} {link : Link} (hheld : (meanwhile.foldl Session.happen
      (e.run inputs).session.sweep).transport.held = some link) :
      (e.run inputs).isClosed = false :=
    isClosed_of_held (unheld_of_isClosed inputs (by simp [(of_start h).2])) hheld
  have htimeout : (e.run inputs).session.transport.ioTimeout = config.ioTimeout := by
    rw [(of_start h).1] at hsettings
    simp only [Session.settings, Session.new, Transport.listen, Prod.mk.injEq] at hsettings
    exact hsettings.2.2.2
  have hlimit := hstreamed.frameLimit_eq
  refine ⟨?_, fun payload past hsuffix => throughout_iff.1 hstreamed.handled _ past hsuffix,
    conversations_run_of_unheld htracked hstreamed, takesUp_step _,
    fun meanwhile link payload consumed hheld hparse => ?_,
    fun meanwhile link error hheld hreadable hfault => ?_⟩
  · obtain ⟨recent, closed, hrecent, hclosed, hyielded⟩ := hstreamed.yielded
    rw [List.append_nil] at hrecent
    refine ⟨closed, hclosed, hrecent ▸ hyielded.imp fun conversation link hlink => ?_⟩
    exact ⟨hlink.1, hlink.2.suffix, fun more => (hlink.2.append more).payloads_eq⟩
  · rw [session_work (hopen hheld)]
    exact takesUp_workSession_of_complete _ meanwhile _ hheld (hlimit.symm ▸ hparse)
  · obtain ⟨s, hread, hlink, hwork, htaken⟩ := workSession_of_fault (e.run inputs).application
      meanwhile _ hheld hreadable (by rwa [hlimit, htimeout])
    obtain ⟨hnone, hstate, hpending⟩ := s.of_disconnect
    refine ⟨s, hread, hlink, ?_, hnone, hstate, by simp [RequestCache.size, hpending],
      by simp [past_disconnect hlink], htaken⟩
    rw [session_work (hopen hheld), hwork]

/-- A peer sends a frame of two bytes in two parts, and the beginning of another. -/
theorem readsFrames_run_parts :
    ∃ e : Endpoint Unit, start .default () "own" .default none 0 = .ready e ∧
      ∃ inputs, conversations (e.run inputs).session.journal = [("peer", [[7, 8]])] ∧
        (e.run inputs).ReadsFrames .default := by
  have h : start .default () "own" .default none 0 =
      .ready ⟨.default, Session.new "own" .default () 0, none, false⟩ := rfl
  refine ⟨_, h, [.arrive (.fresh "peer"), .work, .deliver "peer" [0, 2, 7],
    .deliver "peer" [8, 0, 9, 1], .work], by decide +kernel, ?_⟩
  exact readsFrames_run h _

end Endpoint

end Vdc
