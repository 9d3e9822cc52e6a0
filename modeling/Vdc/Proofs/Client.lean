import Mathlib.Data.List.Nodup
import Vdc.Network
import Vdc.Proofs.Manager
import Vdc.Proofs.Message.Framing

/-!
# What a session manager may rely on

A session manager that takes a handshake for answered has received the answer: `Client.Sound` says
that a message with the id of that handshake has arrived, and that all introductions on the
connection are those of its own handshakes. As long as no id is used twice, which takes more than
4 294 967 295 requests on one connection, the id tells which handshake was answered
(`Client.HasOwnId`). Nothing but time keeps a session manager from getting there,
`Client.steps_useIds`.
-/

namespace Vdc

namespace Manager

/-! ## Receiving -/

/-- A session manager has taken frames off what has arrived. -/
def Reads (m m' : Manager) : Prop :=
  m'.lastId = m.lastId ∧ m'.link.arrived = m.link.arrived ∧ m'.link.written = m.link.written ∧
    ∃ payloads, Frame.Taken defaultFrameLimit m.stream payloads m'.stream

namespace Reads

variable {m m' m'' : Manager}

theorem refl (m : Manager) : m.Reads m := ⟨rfl, rfl, rfl, [], .none _⟩

theorem trans (h : m.Reads m') (h' : m'.Reads m'') : m.Reads m'' := by
  obtain ⟨hid, harrived, hwritten, payloads, htaken⟩ := h
  obtain ⟨hid', harrived', hwritten', payloads', htaken'⟩ := h'
  exact ⟨hid'.trans hid, harrived'.trans harrived, hwritten'.trans hwritten, _,
    htaken.trans htaken'⟩

end Reads

theorem reads_receive (m : Manager) (reads : List Nat) : m.Reads (m.receive reads).manager := by
  fun_induction receive m reads with
  | case1 reads m payload consumed hcomplete =>
    refine ⟨rfl, rfl, rfl, [payload], ?_⟩
    obtain ⟨hfront, hstream⟩ := parse_stream hcomplete
    exact .frame hfront (hstream ▸ .none _)
  | case2 | case3 | case5 | case6 => exact .refl _
  | case4 m needed hneeded rest ih => exact ih
  | case7 m needed hneeded size rest hsize hunread ih =>
    obtain ⟨hid, harrived, hwritten, payloads, htaken⟩ := ih
    rw [stream_read] at htaken
    exact ⟨hid, harrived, hwritten, payloads, htaken⟩

theorem reads_receiveResponse (m : Manager) (id : RequestId) (reads : List Nat) :
    m.Reads (m.receiveResponse id reads).2.manager := by
  fun_induction receiveResponse m id reads with
  | case1 m reads e herror => exact m.reads_receive reads
  | case2 m reads answer hok hid => exact m.reads_receive reads
  | case3 m reads other hok hid others last hrest ih =>
    rw [hrest] at ih
    exact (m.reads_receive reads).trans ih

/-- What is returned for an answer has arrived, and has the id. -/
theorem exists_payload_of_receiveResponse {m : Manager} {id : RequestId} {reads : List Nat}
    {answer : Message} (h : (m.receiveResponse id reads).2.result = .ok answer) :
    answer.id = id ∧ ∃ payload ∈ Frame.payloads defaultFrameLimit m.stream,
      Message.decode payload = .ok answer := by
  obtain ⟨-, rest, harrivals, hlast⟩ := m.receiveResponse_arrivals id reads
  obtain ⟨hid, later, rfl⟩ := hlast answer h
  have hmem : .ok answer ∈ m.arrivals := by
    rw [harrivals]
    exact List.mem_append_right _ List.mem_cons_self
  exact ⟨hid, List.mem_map.1 hmem⟩

theorem welcome?_eq_ok {payload : Payload} {answer : String} (h : welcome? payload = .ok answer) :
    payload = .responseHello answer := by
  cases payload with
  | responseHello dsuid => rw [Except.ok.inj h]
  | _ => cases h

/-! ## Sending -/

/-- What is sent is one more message on the connection. -/
theorem send_eq_ok {m m' : Manager} {message : Message} (h : m.send message = .ok m') :
    ∃ payload frame, message.encode = .ok payload ∧
      Frame.serialize defaultFrameLimit payload = .ok frame ∧
      m' = { m with link := { m.link with written := m.link.written ++ frame } } := by
  unfold send at h
  cases hencode : message.encode with
  | error e => simp [hencode, bind, Except.bind] at h
  | ok payload =>
    cases hframe : Frame.serialize defaultFrameLimit payload with
    | error e => simp [hencode, hframe, bind, Except.bind] at h
    | ok frame =>
      refine ⟨payload, frame, rfl, hframe, ?_⟩
      by_cases hwritable : m.link.writable = true
      · simpa [hencode, hframe, bind, Except.bind, Link.write, hwritable, pure, Except.pure,
          eq_comm] using h
      · simp [hencode, hframe, bind, Except.bind, Link.write, hwritable] at h

theorem toNat_nextId {m : Manager} (h : m.lastId.toNat + 1 < 2 ^ 32) :
    m.nextId.toNat = m.lastId.toNat + 1 := by
  have hsucc : (m.lastId + 1).toNat = m.lastId.toNat + 1 := by
    rw [UInt32.toNat_add]
    exact Nat.mod_eq_of_lt h
  have hne : m.lastId + 1 ≠ reservedId := by
    intro hzero
    rw [hzero] at hsucc
    exact absurd hsucc (Nat.succ_ne_zero _).symm
  rw [nextId, if_neg hne, hsucc]

/-- A request uses up an id, and is sent or not. -/
theorem request_cases (m : Manager) (payload : Payload) :
    (∃ e, m.request payload = (.error e, m.useId.2)) ∨
      ∃ m', m.useId.2.send ⟨m.nextId, payload⟩ = .ok m' ∧
        m.request payload = (.ok m.nextId, m') := by
  unfold request useId
  cases hsend : Manager.send { m with lastId := m.nextId } ⟨m.nextId, payload⟩ with
  | error e => exact .inl ⟨e, by simp only [hsend]⟩
  | ok m' => exact .inr ⟨m', rfl, by simp only [hsend]⟩

end Manager

/-- A message is that of one handshake. -/
theorem Attempt.message_inj {a a' : Attempt} (h : a.message = a'.message) : a = a' := by
  obtain ⟨id, dsuid, apiVersion⟩ := a
  obtain ⟨id', dsuid', apiVersion'⟩ := a'
  simpa [message] using h

namespace Client

variable {c c' : Client}

theorem mem_attempts_of_ended {a : Attempt} {result : Except Error String}
    (h : (a, result) ∈ c.ended) : a ∈ c.attempts :=
  List.mem_append_right _ (List.mem_map_of_mem h)

/-! ## Handshakes -/

/-- Of all handshakes of a session manager this is the only one with its id. -/
def HasOwnId (c : Client) (a : Attempt) : Prop := c.attempts.filter (·.id = a.id) = [a]

theorem HasOwnId.eq_of_mem {a a' : Attempt} (h : c.HasOwnId a) (ha' : a' ∈ c.attempts)
    (hid : a'.id = a.id) : a' = a := by
  have hmem : a' ∈ c.attempts.filter (·.id = a.id) :=
    List.mem_filter.2 ⟨ha', decide_eq_true hid⟩
  rw [HasOwnId] at h
  rw [h] at hmem
  exact List.mem_singleton.1 hmem

theorem hasOwnId_of_nodup (h : (c.attempts.map Attempt.id).Nodup) {a : Attempt}
    (ha : a ∈ c.attempts) : c.HasOwnId a := by
  have hsame (a' : Attempt) : a' ∈ c.attempts.filter (·.id = a.id) ↔ a' ∈ [a] := by
    rw [List.mem_filter, decide_eq_true_iff, List.mem_singleton]
    constructor
    · rintro ⟨ha', hid⟩
      exact List.inj_on_of_nodup_map h ha' ha hid
    · rintro rfl
      exact ⟨ha, rfl⟩
  have hnodup : c.attempts.Nodup := h.of_map
  have hperm := (List.perm_ext_iff_of_nodup (hnodup.filter _) (List.nodup_singleton a)).2 hsame
  exact List.perm_singleton.1 hperm

/-- What holds of the connection of a session manager and of its handshakes. -/
structure Sound (c : Client) : Prop where
  /-- It has introduced itself with its handshakes only. -/
  sent : ∃ messages, Message.Framed defaultFrameLimit messages c.manager.link.written ∧
    ∀ m ∈ messages, m.payload.kind = .requestHello → ∃ a ∈ c.attempts, m = a.message
  /-- What it still has to read is what is left of all that has arrived. -/
  taken : ∃ payloads,
    Frame.Taken defaultFrameLimit c.manager.link.arrived payloads c.manager.stream
  /-- A handshake that succeeded was answered. -/
  answered : ∀ a answer, (a, .ok answer) ∈ c.ended →
    ∃ payload ∈ Frame.payloads defaultFrameLimit c.manager.link.arrived,
      Message.decode payload = .ok ⟨a.id, .responseHello answer⟩
  /-- Its handshakes have ids of their own until the ids are used up. -/
  numbered : c.used < 2 ^ 32 → c.manager.lastId.toNat = c.used ∧
    (c.attempts.map Attempt.id).Nodup ∧ ∀ a ∈ c.attempts, a.id.toNat ≤ c.used

/-- The handshake that is begun next. -/
def next (c : Client) (dsuid : String) (apiVersion : UInt32) : Attempt :=
  ⟨c.manager.nextId, dsuid, apiVersion⟩

/-- A handshake that is begun is one more, whether its message can be sent or not. -/
theorem greet_cases (hidle : c.current = none) (dsuid : String) (apiVersion : UInt32) :
    (c.greet dsuid apiVersion).attempts = c.next dsuid apiVersion :: c.attempts ∧
      (c.greet dsuid apiVersion).used = c.used + 1 ∧
      (∀ a answer, (a, .ok answer) ∈ (c.greet dsuid apiVersion).ended →
        (a, .ok answer) ∈ c.ended) ∧
      ((c.greet dsuid apiVersion).manager = c.manager.useId.2 ∨
        c.manager.useId.2.send (c.next dsuid apiVersion).message =
          .ok (c.greet dsuid apiVersion).manager) := by
  rcases c.manager.request_cases (.requestHello ⟨some dsuid, some apiVersion⟩) with
    ⟨e, hrequest⟩ | ⟨m, hsend, hrequest⟩
  · have hgreet : c.greet dsuid apiVersion = { c with
        manager := c.manager.useId.2
        ended := (c.next dsuid apiVersion, .error e) :: c.ended
        used := c.used + 1 } := by
      rw [greet, hrequest]
      rfl
    rw [hgreet]
    exact ⟨by simp [attempts, hidle], rfl, by simp, .inl rfl⟩
  · have hgreet : c.greet dsuid apiVersion = { c with
        manager := m
        current := some (c.next dsuid apiVersion)
        used := c.used + 1 } := by
      rw [greet, hrequest]
      rfl
    rw [hgreet]
    exact ⟨by simp [attempts, hidle], rfl, fun _ _ h => h, .inr hsend⟩

theorem attempts_conclude {a : Attempt} (h : c.current = some a) (result : Except Error String) :
    (c.conclude a result).attempts = c.attempts := by
  simp [conclude, attempts, h]

/-- A handshake that is begun, waited for once and then given up is `Manager.hello`. -/
theorem hello_eq (hidle : c.current = none) (dsuid : String) (apiVersion : UInt32)
    (reads : List Nat) :
    ((c.greet dsuid apiVersion).await reads).giveUp =
      ⟨(c.manager.hello dsuid apiVersion reads).manager, none,
        (c.next dsuid apiVersion, (c.manager.hello dsuid apiVersion reads).result) :: c.ended,
        c.used + 1⟩ := by
  rcases c.manager.request_cases (.requestHello ⟨some dsuid, some apiVersion⟩) with
    ⟨e, hrequest⟩ | ⟨m, hsend, hrequest⟩
  · simp only [greet, hrequest, await, giveUp, hidle, Manager.hello]
    rfl
  · simp only [greet, hrequest, await, Manager.hello]
    cases (m.receiveResponse c.manager.nextId reads).2.result with
    | ok message => rfl
    | error e => cases e <;> rfl

/-- Ids are used up one after another until the last one. -/
theorem steps_useIds (hidle : c.current = none) (k : Nat)
    (hk : c.manager.lastId.toNat + k < 2 ^ 32) :
    Relation.ReflTransGen Step c { c with
      manager := { c.manager with lastId := UInt32.ofNat (c.manager.lastId.toNat + k) }
      used := c.used + k } := by
  induction k with
  | zero =>
    rw [Nat.add_zero, Nat.add_zero, UInt32.ofNat_toNat]
  | succ k ih =>
    have hlast : (UInt32.ofNat (c.manager.lastId.toNat + k)).toNat =
        c.manager.lastId.toNat + k :=
      UInt32.toNat_ofNat_of_lt' (Nat.lt_of_succ_lt hk)
    have hnext : Manager.nextId { c.manager with
        lastId := UInt32.ofNat (c.manager.lastId.toNat + k) } =
          UInt32.ofNat (c.manager.lastId.toNat + (k + 1)) := by
      rw [← UInt32.toNat_inj, Manager.toNat_nextId (by rw [hlast]; exact hk), hlast,
        UInt32.toNat_ofNat_of_lt' hk]
      rfl
    have hstep := Step.useId { c with
      manager := { c.manager with lastId := UInt32.ofNat (c.manager.lastId.toNat + k) }
      used := c.used + k } hidle
    rw [Manager.useId, hnext] at hstep
    exact (ih (by omega)).tail hstep

/-! ## What every step preserves -/

namespace Sound

theorem fresh (name : String) : (Client.fresh name).Sound where
  sent := ⟨[], .nil, nofun⟩
  taken := ⟨[], .none _⟩
  answered := nofun
  numbered _ := ⟨rfl, .nil, nofun⟩

/-- Frames are taken off what has arrived. -/
theorem reads (h : c.Sound) {m : Manager} (hreads : c.manager.Reads m) :
    { c with manager := m }.Sound := by
  obtain ⟨hid, harrived, hwritten, more, hmore⟩ := hreads
  obtain ⟨payloads, htaken⟩ := h.taken
  refine ⟨?_, ⟨payloads ++ more, ?_⟩, ?_, ?_⟩
  · rw [hwritten]
    exact h.sent
  · rw [harrived]
    exact htaken.trans hmore
  · rw [harrived]
    exact h.answered
  · rw [hid]
    exact h.numbered

/-- A message is sent that is no introduction, or is that of a handshake. -/
theorem send (h : c.Sound) {message : Message} {m : Manager}
    (hmessage : message.payload.kind = .requestHello → ∃ a ∈ c.attempts, message = a.message)
    (hsend : c.manager.send message = .ok m) : { c with manager := m }.Sound := by
  obtain ⟨payload, frame, hencode, hframe, rfl⟩ := Manager.send_eq_ok hsend
  obtain ⟨messages, hframed, hsent⟩ := h.sent
  refine ⟨⟨messages ++ [message], hframed.append (.single hencode hframe), fun m hm => ?_⟩,
    h.taken, h.answered, h.numbered⟩
  rcases List.mem_append.1 hm with hold | hnew
  · exact hsent m hold
  · obtain rfl := List.mem_singleton.1 hnew
    exact hmessage

/-- Bytes arrive. -/
theorem deliver (h : c.Sound) (bytes : List UInt8) : (c.onLink (·.deliver bytes)).Sound := by
  obtain ⟨payloads, htaken⟩ := h.taken
  refine ⟨h.sent, ⟨payloads, ?_⟩, fun a answer hanswer => ?_, h.numbered⟩
  · have hmore := htaken.append bytes
    rwa [Manager.stream, List.append_assoc] at hmore
  · obtain ⟨payload, hpayload, hdecode⟩ := h.answered a answer hanswer
    exact ⟨payload, Frame.mem_payloads_append hpayload bytes, hdecode⟩

/-- A handshake comes to an end, with an answer only if that has arrived. -/
theorem conclude (h : c.Sound) {a : Attempt} (hcurrent : c.current = some a)
    {result : Except Error String} (hresult : ∀ answer, result = .ok answer →
      ∃ payload ∈ Frame.payloads defaultFrameLimit c.manager.link.arrived,
        Message.decode payload = .ok ⟨a.id, .responseHello answer⟩) :
    (c.conclude a result).Sound := by
  have hattempts := attempts_conclude hcurrent result
  refine ⟨?_, h.taken, fun a' answer hanswer => ?_, ?_⟩
  · rw [hattempts]
    exact h.sent
  · rcases List.mem_cons.1 hanswer with hnew | hold
    · obtain ⟨rfl, rfl⟩ := Prod.mk.inj hnew
      exact hresult answer rfl
    · exact h.answered a' answer hold
  · rw [hattempts]
    exact h.numbered

/-- A handshake is waited for. -/
theorem await (h : c.Sound) (reads : List Nat) : (c.await reads).Sound := by
  unfold Client.await
  cases hcurrent : c.current with
  | none => exact h
  | some a =>
    have hread := h.reads (c.manager.reads_receiveResponse a.id reads)
    simp only [hcurrent] at hread
    dsimp only
    split
    · exact hread
    · exact hread.conclude rfl nofun
    · next message hresult =>
      refine hread.conclude rfl fun answer hanswer => ?_
      obtain ⟨hid, payload, hpayload, hdecode⟩ := Manager.exists_payload_of_receiveResponse hresult
      obtain ⟨payloads, htaken⟩ := h.taken
      refine ⟨payload, ?_, ?_⟩
      · rw [(c.manager.reads_receiveResponse a.id reads).2.1, htaken.payloads_eq]
        exact List.mem_append_right _ hpayload
      · rw [hdecode, ← hid, ← Manager.welcome?_eq_ok hanswer]

/-- A handshake is begun, and its message not yet sent. -/
theorem begin (h : c.Sound) (hidle : c.current = none) (dsuid : String) (apiVersion : UInt32) :
    { c.greet dsuid apiVersion with manager := c.manager.useId.2 }.Sound := by
  obtain ⟨hattempts, hused, hended, -⟩ := greet_cases hidle dsuid apiVersion
  have hmore : attempts { c.greet dsuid apiVersion with manager := c.manager.useId.2 } =
      c.next dsuid apiVersion :: c.attempts := hattempts
  obtain ⟨messages, hframed, hsent⟩ := h.sent
  refine ⟨⟨messages, hframed, fun m hm hkind => ?_⟩, h.taken,
    fun a answer hanswer => h.answered a answer (hended a answer hanswer), fun hfew => ?_⟩
  · obtain ⟨a, ha, hmessage⟩ := hsent m hm hkind
    rw [hmore]
    exact ⟨a, List.mem_cons_of_mem _ ha, hmessage⟩
  · simp only [hused] at hfew
    obtain ⟨hlast, hnodup, hbound⟩ := h.numbered (by omega)
    have hid : c.manager.nextId.toNat = c.used + 1 := by
      rw [Manager.toNat_nextId (by omega), hlast]
    rw [hmore]
    simp only [hused]
    refine ⟨hid, List.nodup_cons.2 ⟨fun hmem => ?_, hnodup⟩, List.forall_mem_cons.2
      ⟨Nat.le_of_eq hid, fun a ha => Nat.le_succ_of_le (hbound a ha)⟩⟩
    obtain ⟨a, ha, hsame⟩ := List.mem_map.1 hmem
    have hold := hbound a ha
    rw [hsame, next, hid] at hold
    omega

/-- A handshake is begun. -/
theorem greet (h : c.Sound) (hidle : c.current = none) (dsuid : String) (apiVersion : UInt32) :
    (c.greet dsuid apiVersion).Sound := by
  have hbegun := h.begin hidle dsuid apiVersion
  obtain ⟨hattempts, -, -, hmanager | hsend⟩ := greet_cases hidle dsuid apiVersion
  · rwa [← hmanager] at hbegun
  · refine hbegun.send (fun _ => ⟨c.next dsuid apiVersion, ?_, rfl⟩) hsend
    exact (congrArg _ hattempts).mpr List.mem_cons_self

/-- An id is used up for something else. -/
theorem useId (h : c.Sound) :
    { c with manager := c.manager.useId.2, used := c.used + 1 }.Sound := by
  refine ⟨h.sent, h.taken, h.answered, fun hfew => ?_⟩
  dsimp only at hfew ⊢
  obtain ⟨hlast, hnodup, hbound⟩ := h.numbered (by omega)
  refine ⟨?_, hnodup, fun a ha => Nat.le_succ_of_le (hbound a ha)⟩
  rw [← hlast]
  exact Manager.toNat_nextId (by omega)

theorem step (h : c.Sound) (hstep : Step c c') : c'.Sound := by
  cases hstep with
  | greet dsuid apiVersion hidle => exact h.greet hidle dsuid apiVersion
  | await reads => exact h.await reads
  | giveUp =>
    unfold Client.giveUp
    split
    · exact h
    · next a hcurrent => exact h.conclude hcurrent nofun
  | useId hidle => exact h.useId
  | send message manager hidle hkind hsend =>
    exact h.send (fun hhello => absurd hhello hkind) hsend
  | request payload hidle hkind =>
    rcases c.manager.request_cases payload with ⟨e, hrequest⟩ | ⟨m, hsend, hrequest⟩ <;>
      rw [hrequest]
    · exact h.useId
    · exact h.useId.send (fun hhello => absurd hhello hkind) hsend
  | receive reads hidle => exact h.reads (c.manager.reads_receive reads)
  | deliver bytes => exact h.deliver bytes
  | turn ended writable closed => exact ⟨h.sent, h.taken, h.answered, h.numbered⟩

theorem steps (h : c.Sound) (hsteps : Relation.ReflTransGen Step c c') : c'.Sound := by
  induction hsteps with
  | refl => exact h
  | tail _ hlast ih => exact ih.step hlast

end Sound

end Client

end Vdc
