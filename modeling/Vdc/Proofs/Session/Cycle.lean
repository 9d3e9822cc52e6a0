import Vdc.Proofs.Session.Connections
import Vdc.Proofs.Session.Handshake

/-!
# The cycle of states

A session is meant to go from disconnected to connected, from there to open, and back. `stateOf`
reads the state from a journal, so that every passage from one state to another can be told by the
event that brought it about. All passages of a run are those of the cycle, except for one: an
introduction that is answered in an open session puts another peer in the place of the one before,
and the application is called back again. A run follows the cycle exactly if that never happens
(`followsCycle_iff`).
-/

namespace Vdc

/-- The passages that a session is meant to make. -/
inductive SessionState.Passage : SessionState → SessionState → Prop
  | connected : Passage .disconnected .connected
  | opened (peer : String) : Passage .connected (.active peer)
  | failed : Passage .connected .disconnected
  | ended (peer : String) : Passage (.active peer) .disconnected

variable {σ : Type}

/-! ## States in a journal -/

/-- The state of a connection after some events. -/
def stateOf (own : String) (version : UInt32) (journal : List (Event σ)) : SessionState :=
  match connectionOf journal with
  | none => .disconnected
  | some _ => ((greetings own version journal).head?.map .active).getD .connected

/-- How often the application was called back about a handshake on the connection that is held. -/
def welcomes : List (Event σ) → Nat
  | [] => 0
  | .accepted _ :: _ | .closed _ :: _ => 0
  | .called .hello _ :: past => welcomes past + 1
  | _ :: past => welcomes past

/-- A journal follows the cycle: the state makes only the passages it is meant to make, so whoever
has a session keeps it until it ends, and the application hears of one handshake on a connection at
most. -/
structure FollowsCycle (own : String) (version : UInt32) (journal : List (Event σ)) : Prop where
  passage : ∀ event past, event :: past <:+ journal →
    stateOf own version (event :: past) = stateOf own version past ∨
      SessionState.Passage (stateOf own version past) (stateOf own version (event :: past))
  kept : ∀ event past peer, event :: past <:+ journal → stateOf own version past = .active peer →
    stateOf own version (event :: past) = .active peer ∨
      stateOf own version (event :: past) = .disconnected
  once : ∀ past, past <:+ journal → welcomes past ≤ 1

section

variable {own : String} {version : UInt32} {event : Event σ} {past journal : List (Event σ)}

theorem connectionOf_cons_of_quiet (h : event.IsQuiet) (past : List (Event σ)) :
    connectionOf (event :: past) = connectionOf past := by
  cases event <;> first | rfl | exact h.elim

theorem stateOf_cons_of_quiet (h : event.IsQuiet) (past : List (Event σ)) :
    stateOf own version (event :: past) = stateOf own version past := by
  rw [stateOf, stateOf, connectionOf_cons_of_quiet h, greetings_cons_of_quiet h]

/-- A state is known from whether a connection is held and from the introductions on it. -/
theorem eq_stateOf {state : SessionState} {connected : Bool}
    (hconnected : connected = (connectionOf journal).isSome)
    (hstate : state ≠ .disconnected ↔ connected = true)
    (hpeer : state.peer? = (greetings own version journal).head?) :
    state = stateOf own version journal := by
  unfold stateOf
  cases hlink : connectionOf journal with
  | none =>
    rw [hconnected, hlink] at hstate
    simpa using hstate
  | some link =>
    rw [hconnected, hlink] at hstate
    rw [← hpeer]
    cases state with
    | disconnected => simp at hstate
    | connected | active => rfl

theorem stateOf_of_greetings {link peer : String} {earlier : List String}
    (hlink : connectionOf journal = some link)
    (hgreetings : greetings own version journal = peer :: earlier) :
    stateOf own version journal = .active peer := by
  simp only [stateOf, hlink, hgreetings, List.head?_cons, Option.map_some, Option.getD_some]

theorem greetings_ne_nil_of_active {peer : String}
    (h : stateOf own version journal = .active peer) : greetings own version journal ≠ [] := by
  intro hnobody
  rw [stateOf, hnobody] at h
  split at h <;> cases h

/-- The state changes along the cycle, unless somebody is answered while a session is open. -/
theorem Event.InPlace.passage (h : event.InPlace past) (own : String) (version : UInt32) :
    stateOf own version (event :: past) = stateOf own version past ∨
      SessionState.Passage (stateOf own version past) (stateOf own version (event :: past)) ∨
      ∃ before peer, stateOf own version past = .active before ∧
        answered? own version (event :: past) = some peer ∧
        stateOf own version (event :: past) = .active peer := by
  cases event with
  | accepted link =>
    have hbefore : stateOf own version past = .disconnected := by
      rw [stateOf, show connectionOf past = none from h]
    rw [hbefore]
    exact .inr (.inl .connected)
  | closed link =>
    cases hbefore : stateOf own version past with
    | disconnected => exact .inl rfl
    | connected => exact .inr (.inl .failed)
    | active peer => exact .inr (.inl (.ended peer))
  | sent m =>
    obtain ⟨link, hlink⟩ := h
    have hafter : connectionOf (.sent m :: past) = some link := hlink
    cases hanswered : answered? own version (.sent m :: past) with
    | none =>
      have hsame : greetings own version (.sent m :: past) = greetings own version past := by
        rw [greetings, hanswered, Option.toList_none, List.nil_append] <;> simp
      exact .inl (by rw [stateOf, stateOf, hafter, hlink, hsame])
    | some peer =>
      have hopen := stateOf_of_greetings hafter (greetings_of_answered hanswered)
      cases hbefore : greetings own version past with
      | nil =>
        have hconnected : stateOf own version past = .connected := by
          simp only [stateOf, hlink, hbefore, List.head?_nil, Option.map_none, Option.getD_none]
        rw [hopen, hconnected]
        exact .inr (.inl (.opened peer))
      | cons before earlier =>
        exact .inr (.inr ⟨before, peer, stateOf_of_greetings hlink hbefore, rfl, hopen⟩)
  | _ =>
    refine .inl (stateOf_cons_of_quiet ?_ past)
    exact fun h => h

/-- The application is called back once for every introduction that was answered. -/
theorem welcomes_add (h : Throughout (Event.InOrder own version) journal) :
    welcomes journal + (answered? own version journal).toList.length =
      (greetings own version journal).length := by
  induction journal with
  | nil => rfl
  | cons event past ih =>
    obtain ⟨horder, hpast⟩ := h
    have hcount := ih hpast
    -- Between an answer and the call for it there is nothing.
    have hidle (hother : ∀ status, event ≠ .called .hello status) :
        welcomes past = (greetings own version past).length := by
      cases hanswered : answered? own version past with
      | none => rwa [hanswered] at hcount
      | some peer =>
        obtain ⟨status, hstatus⟩ := horder.hello peer hanswered
        exact absurd hstatus (hother status)
    cases event with
    | accepted | closed => rfl
    | sent m =>
      have hsum : (greetings own version (.sent m :: past)).length =
          (answered? own version (.sent m :: past)).toList.length +
            (greetings own version past).length := by
        rw [greetings, List.length_append] <;> simp
      rw [hsum, ← hidle (fun _ hcalled => by cases hcalled), Nat.add_comm]
      rfl
    | called callback status =>
      rw [greetings_cons_of_quiet (Event.isQuiet_called callback status),
        answered?_cons_of_quiet (Event.isQuiet_called callback status)]
      cases callback with
      | hello =>
        obtain ⟨peer, hpeer⟩ := horder.answer status rfl
        rwa [hpeer] at hcount
      | _ => exact hidle fun _ hcalled => by cases hcalled
    | handled | rejected | registered | declined | swept | completed | inspected | withdrawn =>
      exact hidle fun _ hcalled => by cases hcalled

/-- If nobody is answered while a session is open, one introduction on a connection is. -/
theorem length_greetings_le (hplaced : Throughout Event.InPlace journal)
    (hnever : ∀ event past peer, event :: past <:+ journal →
      answered? own version (event :: past) = some peer →
        ∀ other, stateOf own version past ≠ .active other) :
    (greetings own version journal).length ≤ 1 := by
  induction journal with
  | nil => exact Nat.zero_le _
  | cons event past ih =>
    have hbefore := ih hplaced.2 fun event' past' peer hsuffix =>
      hnever event' past' peer (hsuffix.trans (List.suffix_cons ..))
    cases event with
    | accepted | closed => exact Nat.zero_le _
    | sent m =>
      obtain ⟨link, hlink⟩ := hplaced.1
      cases hanswered : answered? own version (.sent m :: past) with
      | none =>
        rw [greetings, hanswered, Option.toList_none, List.nil_append] <;> simp [hbefore]
      | some peer =>
        rw [greetings_of_answered hanswered]
        cases hgreetings : greetings own version past with
        | nil => exact Nat.le_refl _
        | cons before earlier =>
          exact absurd (stateOf_of_greetings hlink hgreetings)
            (hnever _ past peer (List.suffix_refl _) hanswered before)
    | _ => exact hbefore

/-- The cycle is followed exactly if nobody is answered while a session is open. -/
theorem followsCycle_iff (hplaced : Throughout Event.InPlace journal)
    (horder : Throughout (Event.InOrder own version) journal)
    (hidle : answered? own version journal = none) :
    FollowsCycle own version journal ↔
      ∀ event past peer, event :: past <:+ journal →
        answered? own version (event :: past) = some peer →
          ∀ other, stateOf own version past ≠ .active other := by
  constructor
  · intro hcycle event past peer hsuffix hanswered other hactive
    obtain ⟨status, hcalled⟩ := exists_called_of_answered horder hidle hsuffix hanswered
    have hcount := welcomes_add (horder.of_suffix hcalled)
    have hquiet := Event.isQuiet_called (σ := σ) .hello status
    rw [greetings_cons_of_quiet hquiet, answered?_cons_of_quiet hquiet,
      greetings_of_answered hanswered] at hcount
    have honce := hcycle.once _ hcalled
    have hbefore := List.length_pos_iff.2 (greetings_ne_nil_of_active hactive)
    simp only [Option.toList_none, List.length_nil, List.length_cons] at hcount
    omega
  · intro hnever
    have hpassage (event : Event σ) (past : List (Event σ)) (hsuffix : event :: past <:+ journal) :
        stateOf own version (event :: past) = stateOf own version past ∨
          SessionState.Passage (stateOf own version past)
            (stateOf own version (event :: past)) := by
      rcases (throughout_iff.1 hplaced event past hsuffix).passage own version with
        hsame | hpassage | ⟨before, peer, hactive, hanswered, -⟩
      · exact .inl hsame
      · exact .inr hpassage
      · exact absurd hactive (hnever event past peer hsuffix hanswered before)
    refine ⟨hpassage, fun event past peer hsuffix hactive => ?_, fun past hsuffix => ?_⟩
    · rcases hpassage event past hsuffix with hsame | hpassage
      · exact .inl (hsame.trans hactive)
      · rw [hactive] at hpassage
        generalize stateOf own version (event :: past) = after at hpassage ⊢
        cases hpassage
        exact .inr rfl
    · have hcount := welcomes_add (horder.of_suffix hsuffix)
      have hlength := length_greetings_le (hplaced.of_suffix hsuffix)
        fun event past peer hsuffix' => hnever event past peer (hsuffix'.trans hsuffix)
      omega

end

/-! ## Introductions in an open session -/

namespace Session

variable {s s' : Session σ}

theorem Act.state_eq (h : Act s s') : s'.state = s.state := by
  have hsent {s s' : Session σ} {m : Message} (h : s.transmit m = .ok s') : s'.state = s.state := by
    obtain ⟨_, _, -, -, rfl⟩ := transmit_eq_ok h
    rfl
  cases h with
  | remember | happen | inspect => rfl
  | send what =>
    rcases s.send_cases what with h | ⟨m, -, h⟩
    · rw [h]
    · exact hsent h
  | announce subject completion =>
    rcases s.announce_cases subject completion with ⟨e, h⟩ | ⟨s', ht, h⟩
    · rw [h]
      rfl
    · have hannounced : s'.state = s.state := hsent (s := { s with lastId := s.nextId }) ht
      rcases h with ⟨e, -, h⟩ | ⟨pending, -, h⟩ <;> rw [h] <;> exact hannounced

/-- A script leaves the state as it is. -/
theorem state_run (script : Script σ) (s : Session σ) : (run script s).state = s.state := by
  have h := acts_run script s
  generalize run script s = s' at h ⊢
  induction h with
  | refl => rfl
  | tail _ hlast ih => exact hlast.state_eq.trans ih

/-- An introduction that can be answered opens a session, whether one was open before or not. -/
theorem handle_of_introduction (app : Application σ) {payload : List UInt8} {id : RequestId}
    {peer : String} (hstate : s.state ≠ .disconnected)
    (hintroduction : introduction? s.apiVersion payload = some (id, peer))
    (hs : (s.note (.handled payload)).transmit ⟨id, .responseHello s.dsuid⟩ = .ok s') :
    s.handle app payload =
      run (app.react .hello) ((s'.opened peer).note (.called .hello (s'.opened peer).status)) := by
  obtain ⟨hello, hdecode, hcheck⟩ := introduction?_eq_some_iff.1 hintroduction
  have hgreet : (s.note (.handled payload)).greet app id hello =
      run (app.react .hello) ((s'.opened peer).note (.called .hello (s'.opened peer).status)) := by
    have hcheck' : SessionState.checkHello (s.note (.handled payload)).apiVersion id hello =
        .ok peer := hcheck
    have hs' : (s.note (.handled payload)).transmit
        ⟨id, .responseHello (s.note (.handled payload)).dsuid⟩ = .ok s' := hs
    simp only [greet, hcheck', hs']
    rfl
  simp only [handle, Directive.ofPayload_of_decode hdecode]
  cases hkind : s.state with
  | disconnected => exact absurd hkind hstate
  | connected | active => exact hgreet

/-- The application is called back with the session open, and whatever it does then leaves the
session open. -/
theorem active_of_introduction (app : Application σ) {payload : List UInt8} {id : RequestId}
    {peer : String} (hstate : s.state ≠ .disconnected)
    (hintroduction : introduction? s.apiVersion payload = some (id, peer))
    (hs : (s.note (.handled payload)).transmit ⟨id, .responseHello s.dsuid⟩ = .ok s') :
    (s.handle app payload).state = .active peer ∧ ∃ status, status.state = .active peer ∧
      .called .hello status :: .sent ⟨id, .responseHello s.dsuid⟩ :: .handled payload ::
        s.journal <:+ (s.handle app payload).journal := by
  rw [handle_of_introduction app hstate hintroduction hs]
  refine ⟨state_run _ _, (s'.opened peer).status, rfl, ?_⟩
  obtain ⟨new, hjournal, -⟩ := notes_run (app.react .hello)
    ((s'.opened peer).note (.called .hello (s'.opened peer).status))
  obtain ⟨_, _, -, -, rfl⟩ := transmit_eq_ok hs
  exact ⟨new, hjournal.symm⟩

end Session

namespace Endpoint

variable {app : Application σ} {memory : σ} {dsuid : String} {config : Config}
  {announcer : Option Announcer} {port : UInt16} {e : Endpoint σ}

/-- What the states of a session were in the course of a run, at an endpoint named `own`. -/
structure Cycles (own : String) (version : UInt32) (e : Endpoint σ) : Prop where
  now : e.session.state = stateOf own version e.session.journal
  /-- It was so whenever the application was called or looked. -/
  seen : ∀ event past status, event :: past <:+ e.session.journal →
    event.status? = some status → status.state = stateOf own version past
  /-- The state makes the passages of the cycle, and one more: an introduction that is answered in
  an open session puts another peer in the place of the one before. -/
  passage : ∀ event past, event :: past <:+ e.session.journal →
    stateOf own version (event :: past) = stateOf own version past ∨
      SessionState.Passage (stateOf own version past) (stateOf own version (event :: past)) ∨
      ∃ before peer, stateOf own version past = .active before ∧
        answered? own version (event :: past) = some peer ∧
        stateOf own version (event :: past) = .active peer
  /-- The cycle is followed exactly if that passage is never made. -/
  follows_iff : FollowsCycle own version e.session.journal ↔
    ∀ event past peer, event :: past <:+ e.session.journal →
      answered? own version (event :: past) = some peer →
        ∀ other, stateOf own version past ≠ .active other
  /-- It is made for every introduction that comes in an open session and can be answered. -/
  replaced : ∀ before payload id peer s, e.session.state = .active before →
    introduction? version payload = some (id, peer) →
    (e.session.note (.handled payload)).transmit ⟨id, .responseHello own⟩ = .ok s →
      (e.session.handle e.application payload).state = .active peer ∧
        ∃ status, status.state = .active peer ∧
          .called .hello status :: .sent ⟨id, .responseHello own⟩ :: .handled payload ::
            e.session.journal <:+ (e.session.handle e.application payload).journal

/-- Whatever an endpoint takes after its start, its session follows the cycle of states, but for
introductions that are answered in an open session. -/
theorem cycles_run (h : start app memory dsuid config announcer port = .ready e)
    (inputs : List (Input σ)) : (e.run inputs).Cycles dsuid config.apiVersion := by
  obtain ⟨hcoherent, htracked, hplaced⟩ := inPlace_run h inputs
  obtain ⟨hgreeted, hdsuid, hversion⟩ := greeted_run h inputs
  have hnow := hgreeted.now
  have hidle := hgreeted.idle
  have horder := hgreeted.before
  rw [hdsuid, hversion] at hnow hidle horder
  refine ⟨eq_stateOf htracked.connected_eq hcoherent.now.connected_iff hnow,
    fun event past status hsuffix hstatus => ?_,
    fun event past hsuffix => (throughout_iff.1 hplaced event past hsuffix).passage _ _,
    followsCycle_iff hplaced horder hidle,
    fun before payload id peer s hactive hintroduction hs => ?_⟩
  · have hevent := throughout_iff.1 hplaced event past hsuffix
    have hseen : status.Coherent := hcoherent.before status
      (List.mem_filterMap.2 ⟨event, hsuffix.subset List.mem_cons_self, hstatus⟩)
    exact eq_stateOf (hevent.connected_eq hstatus) hseen.connected_iff
      ((throughout_iff.1 horder event past hsuffix).state status hstatus)
  · have hopened := Session.active_of_introduction (e.run inputs).application
      (by rw [hactive]; nofun) (by rwa [hversion]) (by rwa [hdsuid])
    rwa [hdsuid] at hopened

/-- A peer introduces itself under the name `P` and leaves. -/
theorem cycles_run_farewell :
    ∃ e : Endpoint Unit, start .default () "own" .default none 0 = .ready e ∧
      ∃ inputs, welcomes (e.run inputs).session.journal = 1 ∧
        (e.run inputs).session.state = .active "P" ∧
        (e.run (inputs ++ [.finish "peer", .work])).session.state = .disconnected ∧
        (e.run (inputs ++ [.finish "peer", .work])).Cycles "own" Config.default.apiVersion := by
  have h : start .default () "own" .default none 0 =
      .ready ⟨.default, Session.new "own" .default () 0, none, false⟩ := rfl
  refine ⟨_, h, [.arrive (.fresh "peer"), .work,
    .deliver "peer" (frameOf ⟨1, .requestHello ⟨some "P", some 2⟩⟩), .work], by decide +kernel,
    by decide +kernel, by decide +kernel, ?_⟩
  exact cycles_run h _

/-- A peer that has a session under the name `P` introduces itself as `Q`: the session is now one
with `Q`, and the application was called back about both. -/
theorem not_followsCycle_run :
    ∃ e : Endpoint Unit, start .default () "own" .default none 0 = .ready e ∧
      ∃ inputs more, (e.run inputs).session.state = .active "P" ∧
        (e.run (inputs ++ more)).session.state = .active "Q" ∧
        welcomes (e.run (inputs ++ more)).session.journal = 2 ∧
        ¬ FollowsCycle "own" Config.default.apiVersion
            (e.run (inputs ++ more)).session.journal := by
  have h : start .default () "own" .default none 0 =
      .ready ⟨.default, Session.new "own" .default () 0, none, false⟩ := rfl
  refine ⟨_, h, [.arrive (.fresh "peer"), .work,
    .deliver "peer" (frameOf ⟨1, .requestHello ⟨some "P", some 2⟩⟩), .work],
    [.deliver "peer" (frameOf ⟨2, .requestHello ⟨some "Q", some 2⟩⟩), .work], by decide +kernel,
    by decide +kernel, by decide +kernel, fun hcycle => ?_⟩
  exact absurd (hcycle.once _ (List.suffix_refl _)) (by decide +kernel)

end Endpoint

end Vdc
