import Vdc.Proofs.Client
import Vdc.Proofs.Session.Exchange

/-!
# Agreement on a handshake

Whoever is told that his handshake succeeded has a session: `Network.Agrees` says that the endpoint
took a handshake of his with this id up on his connection, answered it, and opened a session with
whom it introduces. It holds of any number of session managers, in whatever order they and the
endpoint go on and whenever what was written arrives (`Network.agrees_of_steps`).

The argument follows the answer back. It has arrived, so it was written on this connection, and the
refusal of a newcomer is no answer; so the endpoint sent it while it held the connection, and that
only right after it had taken up an introduction with the same id. The introduction came over the
connection, so it was sent by this session manager, for one of his handshakes. The id says which,
until the ids of a connection come round, after 4 294 967 295 requests. From then on the answer to
an old handshake may be taken for that to a new one (`Network.steps_staleAnswer`).
-/

namespace Vdc

variable {σ : Type}

/-- An introduction asks for a session with a peer, by the version of the endpoint. -/
theorem hello_of_introduction {version : UInt32} {payload : List UInt8} {id : RequestId}
    {peer : String} (h : introduction? version payload = some (id, peer)) :
    Message.decode payload = .ok (Attempt.message ⟨id, peer, version⟩) ∧ peer ≠ "" := by
  obtain ⟨⟨dsuid, apiVersion⟩, hdecode, hcheck⟩ := introduction?_eq_some_iff.1 h
  obtain ⟨-, rfl, rfl, hpeer⟩ := SessionState.checkHello_eq_ok_iff.1 hcheck
  exact ⟨hdecode, hpeer⟩

/-- An endpoint named `own` took up a handshake on a connection that it had accepted and that it
held then, answered it, and opened a session with whom it introduces. -/
structure Endpoint.Welcomed (own : String) (version : UInt32) (e : Endpoint σ) (name : String)
    (a : Attempt) : Prop where
  version_eq : a.apiVersion = version
  dsuid_ne : a.dsuid ≠ ""
  accepted : .accepted name ∈ e.session.journal
  opened : ∃ payload past status, Message.decode payload = .ok a.message ∧
    connectionOf past = some name ∧
    .called .hello status :: .sent ⟨a.id, .responseHello own⟩ :: .handled payload :: past <:+
      e.session.journal ∧
    status.state = .active a.dsuid

namespace Network

/-- What session managers and an endpoint named `own` agree on. -/
structure Agrees (own : String) (version : UInt32) (n : Network σ) : Prop where
  /-- Whoever got an answer to a handshake got the name of the endpoint, and the endpoint has
  welcomed him for a handshake of his with this id. -/
  answered : ∀ name a answer, (a, .ok answer) ∈ (n.clients name).ended → answer = own ∧
    ∃ a' ∈ (n.clients name).attempts, a'.id = a.id ∧ n.endpoint.Welcomed own version name a'
  /-- He was welcomed for this very handshake if no other of his has its id. -/
  welcomed : ∀ name a answer, (a, .ok answer) ∈ (n.clients name).ended →
    (n.clients name).HasOwnId a → n.endpoint.Welcomed own version name a
  /-- That is so of all his handshakes as long as he has not used up more ids than there are. -/
  numbered : ∀ name, (n.clients name).used < 2 ^ 32 →
    ∀ a ∈ (n.clients name).attempts, (n.clients name).HasOwnId a
  /-- Whoever was turned away gets no answer, nor does anybody who was not accepted, told so or
  not. -/
  rejected : ∀ name, .rejected name ∈ n.endpoint.session.journal ∨
    .accepted name ∉ n.endpoint.session.journal →
      ∀ a answer, (a, .ok answer) ∉ (n.clients name).ended
  /-- Nor does a handshake with another version or without a name, if no other has its id. -/
  declined : ∀ name a, (n.clients name).HasOwnId a → a.apiVersion ≠ version ∨ a.dsuid = "" →
    ∀ answer, (a, .ok answer) ∉ (n.clients name).ended

variable {app : Application σ} {memory : σ} {dsuid : String} {config : Config}
  {announcer : Option Announcer} {port : UInt16} {e : Endpoint σ} {n : Network σ}

/-- In what can come of a network, the endpoint has taken some inputs, and every session manager may
rely on its connection. -/
theorem sound_of_steps (h : Endpoint.start app memory dsuid config announcer port = .ready e)
    (hsteps : Steps (.opened e) n) :
    (∃ inputs, n.endpoint = e.run inputs) ∧ (∀ name, (n.clients name).Sound) ∧ n.Wired := by
  induction hsteps with
  | refl =>
    have hlinks : (opened e).links = [] := by
      rw [links, opened, (Endpoint.of_start h).1]
      rfl
    refine ⟨⟨[], rfl⟩, fun name => .fresh name, ?_, ?_, fun name => .inl rfl⟩
    · rw [hlinks]
      exact .nil
    · rw [hlinks]
      exact nofun
  | tail _ hlast ih =>
    obtain ⟨⟨inputs, hrun⟩, hsound, -⟩ := ih
    cases hlast with
    | mk input clients hclients hwired =>
      refine ⟨⟨inputs ++ [input], ?_⟩, fun name => ?_, hwired⟩
      · rw [hrun, Endpoint.run, Endpoint.run, List.foldl_append]
        rfl
      · exact (hsound name).steps (hclients name)

/-- An endpoint takes two inputs, and the session managers act after the first. -/
theorem steps_of_wired {first second : Endpoint.Input σ} {clients : String → Client}
    (hfirst : Wired ⟨e.run [first], .fresh⟩)
    (hclients : ∀ name, Relation.ReflTransGen Client.Step (.fresh name) (clients name))
    (hsecond : Wired ⟨e.run [first, second], clients⟩) :
    Steps (.opened e) ⟨e.run [first, second], clients⟩ :=
  .tail (.single (.mk _ first .fresh (fun _ => .refl) hfirst)) (.mk _ second _ hclients hsecond)

/-- An answer that has arrived was sent on the connection it arrived on. -/
theorem sent_of_answered {limit : Nat} (hwired : n.Wired)
    (hlines : n.endpoint.session.lines.Accounted limit) {name : String}
    (hsound : (n.clients name).Sound) {a : Attempt} {answer : String}
    (h : (a, .ok answer) ∈ (n.clients name).ended) :
    (Event.sent ⟨a.id, .responseHello answer⟩).HappenedOn name n.endpoint.session.journal := by
  obtain ⟨payload, hpayload, hdecode⟩ := hsound.answered a answer h
  rcases hwired.toClient name with hnothing | ⟨link, hlink, rfl, hbegins⟩
  · have hnone : Frame.payloads defaultFrameLimit [] = [] := Frame.payloads_eq_nil nofun
    rw [hnothing, hnone] at hpayload
    cases hpayload
  · obtain ⟨messages, hframed, hsent⟩ := (hlines.links link hlink).sent
    refine (hsent _ (hframed.mem_of_decode hbegins hpayload hdecode)).resolve_left ?_
    exact fun hrefusal => nomatch (Message.mk.inj hrefusal).2

/-- A handshake that was taken up from a connection is one that was made there. -/
theorem attempt_of_handled {limit : Nat} (hwired : n.Wired)
    (hlines : n.endpoint.session.lines.Accounted limit) {name : String}
    (hsound : (n.clients name).Sound) {payload : List UInt8}
    (h : (Event.handled payload).HappenedOn name n.endpoint.session.journal) {a : Attempt}
    (hdecode : Message.decode payload = .ok a.message) : a ∈ (n.clients name).attempts := by
  have hattended := hlines.known (attendance_of_mem h.accepted_mem rfl)
  obtain ⟨link, hlink, rfl⟩ := List.mem_map.1 hattended
  have hlink : link ∈ n.links := List.mem_append_right _ hlink
  obtain ⟨payloads, htaken, hhandled⟩ := (hlines.links link hlink).taken
  obtain ⟨messages, hframed, hsent⟩ := hsound.sent
  obtain ⟨m, hm, hencode⟩ :=
    hframed.exists_encode htaken (hwired.toEndpoint link hlink) payload (hhandled payload h)
  obtain rfl := Message.eq_of_decode hencode hdecode
  obtain ⟨a', ha', hsame⟩ := hsent _ hm rfl
  rwa [Attempt.message_inj hsame]

/-- A handshake that succeeded was taken up, whichever of his with this id it was. -/
theorem welcomed_of_answered
    (h : Endpoint.start app memory dsuid config announcer port = .ready e)
    (hsteps : Steps (.opened e) n) {name : String} {a : Attempt} {answer : String}
    (hanswer : (a, .ok answer) ∈ (n.clients name).ended) :
    answer = dsuid ∧ ∃ a' ∈ (n.clients name).attempts, a'.id = a.id ∧
      n.endpoint.Welcomed dsuid config.apiVersion name a' := by
  obtain ⟨⟨inputs, hrun⟩, hsound, hwired⟩ := sound_of_steps h hsteps
  obtain ⟨haccounted, hgreets⟩ := Endpoint.accounted_run h inputs
  obtain ⟨hgreeted, hdsuid, hversion⟩ := Endpoint.greeted_run h inputs
  rw [← hrun] at haccounted hgreets hgreeted hdsuid hversion
  have hlines := haccounted hwired.nodup
  have hbefore := hgreeted.before
  have hidle := hgreeted.idle
  rw [hdsuid, hversion] at hbefore hidle
  obtain ⟨past, hsuffix, hname⟩ := sent_of_answered hwired hlines (hsound name) hanswer
  obtain ⟨peer, hpeer⟩ := throughout_iff.1 hgreets _ _ hsuffix rfl
  obtain ⟨status, hcalled⟩ := exists_called_of_answered hbefore hidle hsuffix hpeer
  have hstate := ((throughout_iff.1 hbefore _ _ hcalled).state status rfl).trans
    (head?_greetings_of_answered hpeer)
  obtain ⟨id, payload, before, hsent, rfl, hintroduction⟩ := exists_handled_of_answered hpeer
  obtain ⟨rfl, hpayload⟩ := Message.mk.inj hsent
  obtain rfl := Payload.responseHello.inj hpayload
  obtain ⟨hdecode, hdsuid_ne⟩ := hello_of_introduction hintroduction
  have hhandled : (Event.handled payload).HappenedOn name n.endpoint.session.journal :=
    ⟨before, (List.suffix_cons _ _).trans hsuffix, hname⟩
  refine ⟨rfl, ⟨a.id, peer, config.apiVersion⟩,
    attempt_of_handled hwired hlines (hsound name) hhandled hdecode, rfl, rfl, hdsuid_ne,
    hhandled.accepted_mem, payload, before, status, hdecode, hname, hcalled, ?_⟩
  exact SessionState.peer?_eq_some_iff.1 hstate

/-- Whatever comes of an endpoint and any number of session managers, they agree on their
handshakes. -/
theorem agrees_of_steps (h : Endpoint.start app memory dsuid config announcer port = .ready e)
    (hsteps : Steps (.opened e) n) : n.Agrees dsuid config.apiVersion := by
  have hwelcomed {name : String} {a : Attempt} {answer : String}
      (hanswer : (a, .ok answer) ∈ (n.clients name).ended) (hown : (n.clients name).HasOwnId a) :
      n.endpoint.Welcomed dsuid config.apiVersion name a := by
    obtain ⟨-, a', ha', hid, hwelcomed⟩ := welcomed_of_answered h hsteps hanswer
    rwa [hown.eq_of_mem ha' hid] at hwelcomed
  obtain ⟨⟨inputs, hrun⟩, hsound, hwired⟩ := sound_of_steps h hsteps
  refine ⟨fun name a answer hanswer => welcomed_of_answered h hsteps hanswer,
    fun name a answer hanswer hown => hwelcomed hanswer hown, fun name hfew a ha => ?_,
    fun name hrejected a answer hanswer => ?_, fun name a hown hwrong answer hanswer => ?_⟩
  · exact Client.hasOwnId_of_nodup ((hsound name).numbered hfew).2.1 ha
  · obtain ⟨-, a', ha', hid, hwelcomed⟩ := welcomed_of_answered h hsteps hanswer
    have hlines := (Endpoint.accounted_run h inputs).1 (hrun ▸ hwired.nodup)
    rw [← hrun] at hlines
    rcases hrejected with hturned | hnever
    · exact rejected_not_mem hlines.nodup hwelcomed.accepted hturned
    · exact hnever hwelcomed.accepted
  · have hwelcomed := hwelcomed hanswer hown
    exact hwrong.elim (fun hother => hother hwelcomed.version_eq) hwelcomed.dsuid_ne

end Network

namespace Client

/-- A session manager that has made one more handshake, has got some bytes and does not wait any
longer. -/
def afterHello (c : Client) (dsuid : String) (apiVersion : UInt32) (bytes : List UInt8) : Client :=
  (((c.greet dsuid apiVersion).onLink (·.deliver bytes)).await [4096]).giveUp

theorem current_afterHello (c : Client) (dsuid : String) (apiVersion : UInt32)
    (bytes : List UInt8) : (c.afterHello dsuid apiVersion bytes).current = none := by
  unfold afterHello giveUp
  split
  · assumption
  · rfl

theorem steps_afterHello {c : Client} (hidle : c.current = none) (dsuid : String)
    (apiVersion : UInt32) (bytes : List UInt8) :
    Relation.ReflTransGen Step c (c.afterHello dsuid apiVersion bytes) :=
  .tail (.tail (.tail (.single (.greet _ dsuid apiVersion hidle)) (.deliver _ bytes))
    (.await _ [4096])) (.giveUp _)

end Client

namespace Network

/-- Two session managers introduce themselves at once, the second while the first is connected. -/
theorem agrees_of_steps_two :
    ∃ e : Endpoint Unit, Endpoint.start .default () "own" .default none 0 = .ready e ∧
      ∃ n, Steps (.opened e) n ∧
        (n.clients "a").ended.map (Prod.map id Except.toOption) =
          [(⟨1, "P", 2⟩, some "own")] ∧
        (n.clients "b").ended.map (Prod.map id Except.toOption) = [(⟨1, "Q", 2⟩, none)] ∧
        (n.clients "a").used = 1 ∧
        n.endpoint.session.transport.past.map Link.name = ["b"] ∧
        n.Agrees "own" Config.default.apiVersion := by
  have h : Endpoint.start .default () "own" .default none 0 =
      .ready ⟨.default, Session.new "own" .default () 0, none, false⟩ := rfl
  have hsteps : Steps (.opened ⟨.default, Session.new "own" .default () 0, none, false⟩)
      ⟨.run ⟨.default, Session.new "own" .default () 0, none, false⟩ [.work [.arrive (.fresh "a")],
        .work [.deliver "a" (Endpoint.frameOf ⟨1, .requestHello ⟨some "P", some 2⟩⟩),
          .arrive (.fresh "b")]], fun name =>
        if name = "a" then
          (Client.fresh "a").afterHello "P" 2 (Endpoint.frameOf ⟨1, .responseHello "own"⟩)
        else if name = "b" then (Client.fresh "b").afterHello "Q" 2 (Endpoint.frameOf .refusal)
        else .fresh name⟩ := by
    refine steps_of_wired ?_ (fun name => ?_) ?_
    · exact ⟨by decide +kernel, by decide +kernel, fun _ => .inl rfl⟩
    · split
      · next hname => exact hname ▸ Client.steps_afterHello rfl _ _ _
      · split
        · next hname => exact hname ▸ Client.steps_afterHello rfl _ _ _
        · exact .refl
    · refine ⟨by decide +kernel, by decide +kernel, fun name => ?_⟩
      by_cases ha : name = "a"
      · subst ha
        exact .inr (by decide +kernel)
      · by_cases hb : name = "b"
        · subst hb
          exact .inr (by decide +kernel)
        · exact .inl (by simp only [if_neg ha, if_neg hb]; rfl)
  exact ⟨_, h, _, hsteps, by decide +kernel, by decide +kernel, by decide +kernel,
    by decide +kernel, agrees_of_steps h hsteps⟩

end Network

namespace Client

/-- A session manager that has waited in vain for the answer to its first handshake, and has used up
all other ids since. -/
def lapsed : Client :=
  let c := (fresh "a").afterHello "P" 2 []
  { c with
    manager := { c.manager with lastId := UInt32.ofNat (c.manager.lastId.toNat + (2 ^ 32 - 2)) }
    used := c.used + (2 ^ 32 - 2) }

theorem steps_lapsed : Relation.ReflTransGen Step (fresh "a") lapsed :=
  (steps_afterHello rfl "P" 2 []).trans
    (steps_useIds (current_afterHello ..) (2 ^ 32 - 2) (by decide +kernel))

theorem current_lapsed : lapsed.current = none := by decide +kernel

end Client

namespace Network

/-- Once the ids have come round, a handshake without a name is taken for answered when the answer
to the first one arrives. -/
theorem steps_staleAnswer :
    ∃ e : Endpoint Unit, Endpoint.start .default () "own" .default none 0 = .ready e ∧
      ∃ n, Steps (.opened e) n ∧ (⟨1, "", 7⟩, .ok "own") ∈ (n.clients "a").ended ∧
        ¬ n.endpoint.Welcomed "own" Config.default.apiVersion "a" ⟨1, "", 7⟩ ∧
        n.endpoint.session.state = .active "P" ∧ (n.clients "a").used = 2 ^ 32 := by
  let last : Client := Client.lapsed.afterHello "" 7 (Endpoint.frameOf ⟨1, .responseHello "own"⟩)
  have hsteps : Steps (.opened ⟨.default, Session.new "own" .default () 0, none, false⟩)
      ⟨.run ⟨.default, Session.new "own" .default () 0, none, false⟩ [.work [.arrive (.fresh "a")],
        .work [.deliver "a" (Endpoint.frameOf ⟨1, .requestHello ⟨some "P", some 2⟩⟩)]],
        Function.update Client.fresh "a" last⟩ := by
    refine steps_of_wired ?_ (fun name => ?_) ?_
    · exact ⟨by decide +kernel, by decide +kernel, fun _ => .inl rfl⟩
    · by_cases ha : name = "a"
      · subst ha
        rw [Function.update_self]
        exact Client.steps_lapsed.trans (Client.steps_afterHello Client.current_lapsed _ _ _)
      · rw [Function.update_of_ne ha]
    · refine ⟨by decide +kernel, by decide +kernel, fun name => ?_⟩
      by_cases ha : name = "a"
      · subst ha
        exact .inr (by decide +kernel)
      · have hidle : Function.update Client.fresh "a" last name = .fresh name :=
          Function.update_of_ne ha ..
        exact .inl (congrArg (·.manager.link.arrived) hidle)
  have hended : last.ended.map (Prod.map id Except.toOption) =
      [(⟨1, "", 7⟩, some "own"), (⟨1, "P", 2⟩, none)] := by
    decide +kernel
  obtain ⟨⟨a, result⟩, hmem, hsame⟩ := List.mem_map.1 (hended ▸ List.mem_cons_self)
  obtain ⟨rfl, hanswer⟩ := Prod.mk.inj hsame
  obtain rfl := Manager.eq_ok_of_toOption hanswer
  have hlast : Function.update Client.fresh "a" last "a" = last := Function.update_self ..
  exact ⟨_, rfl, _, hsteps, (congrArg Client.ended hlast).symm ▸ hmem, fun h => h.dsuid_ne rfl,
    by decide +kernel, by decide +kernel⟩

end Network

end Vdc
