import Mathlib.Data.List.Nodup
import Mathlib.Data.List.Perm.Subperm
import Vdc.Proofs.Message.RoundTrip
import Vdc.Proofs.Session.Moves

/-!
# What a send comes to

A message is sent whole or not at all. `Session.transmits` tells for every message which of the two
it is and why, and what else changes: nothing in a session if the send fails, the bytes written on
the held connection and the journal if it succeeds. The primitives that an application has are told
from this, `Session.sendsWhole`. Only rows that are unsound write something and fail nevertheless,
since the request they answer gets an error response.

An announcement is sent before its request is registered, and must not fail in between. It does not,
because its id is free, `nextId_free`, as long as any id is; if none were, the search for one would
not end.
-/

namespace Vdc

namespace Session

variable {σ : Type}

/-! ## Free ids -/

/-- A search that comes across an id that is neither reserved nor taken ends with such an id. -/
theorem freeId_free {taken : RequestId → Bool} {steps : Nat} {last : RequestId}
    (h : ∃ k ≤ steps, last + 1 + UInt32.ofNat k ≠ reservedId ∧
      taken (last + 1 + UInt32.ofNat k) = false) :
    freeId taken steps last ≠ reservedId ∧ taken (freeId taken steps last) = false := by
  induction steps generalizing last with
  | zero =>
    obtain ⟨k, hk, hfree⟩ := h
    obtain rfl : k = 0 := Nat.le_zero.1 hk
    simpa [freeId] using hfree
  | succ steps ih =>
    rw [freeId]
    by_cases hfirst : last + 1 ≠ reservedId ∧ (!taken (last + 1)) = true
    · rw [if_pos hfirst]
      exact ⟨hfirst.1, by simpa using hfirst.2⟩
    · rw [if_neg hfirst]
      obtain ⟨k, hk, hfree⟩ := h
      obtain ⟨k, rfl⟩ : ∃ j, k = j + 1 := by
        rcases Nat.eq_zero_or_pos k with rfl | hpos
        · exact absurd (by simpa using hfree) hfirst
        · exact ⟨k - 1, by omega⟩
      refine ih ⟨k, by omega, ?_⟩
      have hnext : last + 1 + 1 + UInt32.ofNat k = last + 1 + UInt32.ofNat (k + 1) := by
        rw [UInt32.ofNat_add]
        ac_rfl
      rw [hnext]
      exact hfree

/-- Among more ids in a row than there are in a list, one is not in the list. -/
theorem exists_not_mem_of_length_lt {ids : List RequestId} {n : Nat} (hn : n ≤ 2 ^ 32)
    (h : ids.length < n) (first : RequestId) : ∃ k < n, first + UInt32.ofNat k ∉ ids := by
  by_contra hall
  simp only [not_exists, not_and, not_not] at hall
  -- Otherwise the ids are distinct, as no more than `2 ^ 32` in a row are, and all in the list.
  have hsubset : (List.range n).map (fun k => first + UInt32.ofNat k) ⊆ ids := by
    intro id hid
    obtain ⟨k, hk, rfl⟩ := List.mem_map.1 hid
    exact hall k (List.mem_range.1 hk)
  have hnodup : ((List.range n).map fun k => first + UInt32.ofNat k).Nodup := by
    refine List.nodup_range.map_on fun j hj k hk hsame => ?_
    rw [List.mem_range] at hj hk
    have hofNat : UInt32.ofNat j = UInt32.ofNat k := by simpa using hsame
    have htoNat := congrArg UInt32.toNat hofNat
    rwa [UInt32.toNat_ofNat', UInt32.toNat_ofNat', Nat.mod_eq_of_lt (by omega),
      Nat.mod_eq_of_lt (by omega)] at htoNat
  have hlength := (hnodup.subperm hsubset).length_le
  rw [List.length_map, List.length_range] at hlength
  omega

/-- If any id is free, the next one is. -/
theorem nextId_free {s : Session σ}
    (h : ∃ id, id ≠ reservedId ∧ s.pending.contains id = false) :
    s.nextId ≠ reservedId ∧ s.pending.contains s.nextId = false := by
  refine freeId_free ?_
  have hsize : (reservedId :: s.pending.ids).length < s.pending.size + 2 := by
    simp [RequestCache.ids, RequestCache.size]
  have hcontains : ∀ id, s.pending.contains id = false ↔ id ∉ s.pending.ids := fun _ =>
    Bool.eq_false_iff.trans (not_congr RequestCache.contains_iff)
  -- The search tries one id more than are reserved or pending, or else all there are.
  by_cases hfew : s.pending.size + 2 ≤ 2 ^ 32
  · obtain ⟨k, hk, hfree⟩ := exists_not_mem_of_length_lt hfew hsize (s.lastId + 1)
    rw [List.mem_cons, not_or] at hfree
    exact ⟨k, by omega, hfree.1, (hcontains _).2 hfree.2⟩
  · obtain ⟨id, hid⟩ := h
    have hlt := (id - (s.lastId + 1)).toNat_lt
    refine ⟨(id - (s.lastId + 1)).toNat, by omega, ?_⟩
    have hsame : s.lastId + 1 + UInt32.ofNat (id - (s.lastId + 1)).toNat = id := by
      rw [UInt32.ofNat_toNat, UInt32.add_comm, UInt32.sub_add_cancel]
    rw [hsame]
    exact hid

/-! ## One message -/

/-- What sending a message comes to. It fails in four ways; a session has no part in the failure,
and of a message that is sent all bytes of its frame are written. -/
inductive Transmits (s : Session σ) (m : Message) : Except Error (Session σ) → Prop
  /-- A double in the message is not finite, so it has no text. -/
  | nonFinite {d : Double} (hd : d ∈ m.doubles) (h : d.isFinite = false) :
      Transmits s m (.error (.parameter (.nonFinite d)))
  /-- No connection is held. -/
  | unconnected {payload : List UInt8} (hencode : m.encode = .ok payload)
      (hheld : s.transport.held = none) : Transmits s m (.error .notConnected)
  /-- The text is longer than frames may be. -/
  | tooLong {payload : List UInt8} {link : Link} (hencode : m.encode = .ok payload)
      (hheld : s.transport.held = some link)
      (h : s.transport.frameLimit < payload.length ∨ Frame.maxLength < payload.length) :
      Transmits s m (.error (.protocol (.payloadTooLong payload.length s.transport.frameLimit)))
  /-- The connection takes no bytes. -/
  | jammed {payload frame : List UInt8} {link : Link} (hencode : m.encode = .ok payload)
      (hheld : s.transport.held = some link)
      (hframe : Frame.serialize s.transport.frameLimit payload = .ok frame)
      (h : link.writable = false) : Transmits s m (.error (.transport .brokenPipe))
  /-- The frame is written, and nothing else changes but the journal. -/
  | sent {payload frame : List UInt8} {link : Link} (hencode : m.encode = .ok payload)
      (hheld : s.transport.held = some link)
      (hframe : Frame.serialize s.transport.frameLimit payload = .ok frame)
      (h : link.writable = true) :
      Transmits s m (.ok ({ s with transport := { s.transport with
        held := some { link with written := link.written ++ frame } } }.note (.sent m)))

theorem transmits (s : Session σ) (m : Message) : s.Transmits m (s.transmit m) := by
  by_cases hfinite : ∀ d ∈ m.doubles, d.isFinite = true
  · have hencode := Message.encode_eq_ok hfinite
    simp only [transmit, hencode, bind, Except.bind, Transport.writeFrame]
    cases hheld : s.transport.held with
    | none => exact .unconnected hencode hheld
    | some link =>
      cases hframe : Frame.serialize s.transport.frameLimit m.toJson.render with
      | error e =>
        have hlong : s.transport.frameLimit < m.toJson.render.length ∨
            Frame.maxLength < m.toJson.render.length := by
          by_contra hshort
          simp only [Frame.serialize, if_neg hshort] at hframe
          cases hframe
        simp only [Frame.serialize, if_pos hlong, Except.error.injEq] at hframe
        subst hframe
        exact .tooLong hencode hheld hlong
      | ok frame =>
        cases hwritable : link.writable with
        | false =>
          simp only [Link.write, hwritable, Bool.false_eq_true, if_false]
          exact .jammed hencode hheld hframe hwritable
        | true =>
          have hwrite : link.write frame = .ok { link with written := link.written ++ frame } :=
            if_pos hwritable
          simp only [hwrite]
          exact .sent hencode hheld hframe hwritable
  · obtain ⟨d, hd, hinfinite, herror⟩ := Message.encode_eq_error hfinite
    simp only [transmit, herror, bind, Except.bind]
    exact .nonFinite hd hinfinite

end Session

/-! ## The primitives -/

/-- The message that is sent if a send succeeds. Unsound rows have none. -/
def Outgoing.message? : Outgoing → Option Message
  | .pong dsuid => some (.notification (.pong dsuid))
  | .vanished dsuid => some (.notification (.vanish dsuid))
  | .identify dsuid => some (.notification (.identifyDevice dsuid))
  | .push dsuid tree => some (.notification (.pushProperty dsuid tree.toElements))
  | .generic id code => some (.genericResponse id code)
  | .property tree => some ⟨tree.requestId, .propertyResponse tree.toElements⟩
  | .propertySet tree code => some (.genericResponse tree.requestId code)
  | .rows given =>
    given.toProperty?.toOption.map fun tree => ⟨tree.requestId, .propertyResponse tree.toElements⟩

namespace Session

variable {σ : Type}

/-- A send succeeds and its message is sent; or it fails and nothing happens; or it fails and the
request of unsound rows gets an error response. -/
theorem send_result (s : Session σ) (what : Outgoing) :
    (∃ m s', what.message? = some m ∧ s.transmit m = .ok s' ∧ s.send what = (.ok (), s')) ∨
    (∃ e, s.send what = (.error e, s)) ∨
    ∃ rows e s', what = .rows rows ∧ rows.toProperty? = .error e ∧ rows.requestId ≠ reservedId ∧
      s.transmit (.genericResponse rows.requestId .noContentForArray) = .ok s' ∧
      s.send what = (.error e, s') := by
  have hattempt : ∀ m, what.message? = some m → s.send what = s.attempt (s.transmit m) →
      (∃ m s', what.message? = some m ∧ s.transmit m = .ok s' ∧ s.send what = (.ok (), s')) ∨
      (∃ e, s.send what = (.error e, s)) := by
    intro m hmessage hsend
    cases hm : s.transmit m with
    | ok s' => exact .inl ⟨m, s', hmessage, hm, by rw [hsend, hm, attempt]⟩
    | error e => exact .inr ⟨e, by rw [hsend, hm, attempt]⟩
  have htree : ∀ tree : Property,
      what.message? = some ⟨tree.requestId, .propertyResponse tree.toElements⟩ →
      s.send what = s.attempt (s.transmitProperty tree) →
      (∃ m s', what.message? = some m ∧ s.transmit m = .ok s' ∧ s.send what = (.ok (), s')) ∨
      (∃ e, s.send what = (.error e, s)) := by
    intro tree hmessage hsend
    unfold transmitProperty at hsend
    split at hsend
    · exact .inr ⟨_, hsend⟩
    · exact hattempt _ hmessage hsend
  cases what with
  | pong | vanished | identify | push | generic => exact (hattempt _ rfl rfl).imp_right .inl
  | property tree => exact (htree tree rfl rfl).imp_right .inl
  | propertySet tree code =>
    by_cases htag : tree.requestId = reservedId
    · exact .inr (.inl ⟨_, if_pos htag⟩)
    · exact (hattempt _ rfl (if_neg htag)).imp_right .inl
  | rows rows =>
    cases hrows : rows.toProperty? with
    | ok tree =>
      refine (htree tree ?_ ?_).imp_right .inl
      · simp only [Outgoing.message?, hrows, Except.toOption, Option.map_some]
      · simp only [send, sendRows, hrows]
    | error e =>
      by_cases htag : rows.requestId = reservedId
      · exact .inr (.inl ⟨e, by simp only [send, sendRows, hrows, if_pos htag]⟩)
      · cases hm : s.transmit (.genericResponse rows.requestId .noContentForArray) with
        | ok s' =>
          refine .inr (.inr ⟨rows, e, s', rfl, hrows, htag, hm, ?_⟩)
          simp only [send, sendRows, hrows, if_neg htag, hm]
        | error failure =>
          exact .inr (.inl ⟨failure, by simp only [send, sendRows, hrows, if_neg htag, hm]⟩)

/-- What the operations that send come to, in whatever state they are called. -/
structure SendsWhole (s : Session σ) : Prop where
  /-- A message is sent whole, or the send fails in one of four ways. -/
  transmits : ∀ m, s.Transmits m (s.transmit m)
  /-- A primitive that succeeds has sent one message, and that is all. -/
  sent : ∀ what s', s.send what = (.ok (), s') →
    ∃ m, what.message? = some m ∧ s.transmit m = .ok s'
  /-- One that fails has changed nothing, except that unsound rows that answer a request have sent
  an error response to it. -/
  failed : ∀ what e s', s.send what = (.error e, s') → s' = s ∨
    ∃ rows, what = .rows rows ∧ rows.toProperty? = .error e ∧ rows.requestId ≠ reservedId ∧
      s.transmit (.genericResponse rows.requestId .noContentForArray) = .ok s'
  /-- An announcement that succeeds was sent under the next id, and is pending then. -/
  announced : ∀ subject completion id s', s.announce subject completion = (.ok id, s') →
    ∃ sent pending, { s with lastId := id }.transmit ⟨id, subject.payload⟩ = .ok sent ∧
      s.pending.register id completion s.clock = .ok pending ∧
      s' = { sent with pending := pending }.note (.registered id s.clock completion)
  /-- One that fails has used up an id and changed nothing else. The search for that id ends, since
  there is a free one. -/
  declined : (∃ id, id ≠ reservedId ∧ s.pending.contains id = false) →
    ∀ subject completion e s', s.announce subject completion = (.error e, s') →
      { s with lastId := s.nextId }.transmit ⟨s.nextId, subject.payload⟩ = .error e ∧
        s' = { s with lastId := s.nextId }.note (.declined s.nextId e)

theorem sendsWhole (s : Session σ) : s.SendsWhole where
  transmits := s.transmits
  sent := by
    intro what s' hsend
    rcases s.send_result what with ⟨m, sent, hm, ht, h⟩ | ⟨e, h⟩ | ⟨rows, e, sent, -, -, -, -, h⟩
    · obtain rfl : sent = s' := congrArg Prod.snd (h.symm.trans hsend)
      exact ⟨m, hm, ht⟩
    · cases h.symm.trans hsend
    · cases h.symm.trans hsend
  failed := by
    intro what e s' hsend
    rcases s.send_result what with ⟨m, sent, -, -, h⟩ | ⟨e', h⟩ |
      ⟨rows, e', sent, hwhat, hrows, htag, ht, h⟩
    · cases h.symm.trans hsend
    · exact .inl (congrArg Prod.snd (hsend.symm.trans h))
    · obtain ⟨he, rfl⟩ := Prod.mk.inj (h.symm.trans hsend)
      obtain rfl := Except.error.inj he
      exact .inr ⟨rows, hwhat, hrows, htag, ht⟩
  announced := by
    intro subject completion id s' hannounce
    rcases s.announce_cases subject completion with ⟨e, h⟩ | ⟨sent, ht, ⟨e, -, h⟩ |
      ⟨pending, hpending, h⟩⟩
    · cases h.symm.trans hannounce
    · cases h.symm.trans hannounce
    · obtain ⟨hid, rfl⟩ := Prod.mk.inj (h.symm.trans hannounce)
      obtain rfl := Except.ok.inj hid
      obtain ⟨payload, transport, -, -, rfl⟩ := transmit_eq_ok ht
      exact ⟨_, pending, ht, hpending, rfl⟩
  declined := by
    intro hfree subject completion e s' hannounce
    cases ht : { s with lastId := s.nextId }.transmit ⟨s.nextId, subject.payload⟩ with
    | error e' =>
      simp only [announce, ht] at hannounce
      obtain ⟨he, rfl⟩ := Prod.mk.inj hannounce
      obtain rfl := Except.error.inj he
      exact ⟨rfl, rfl⟩
    | ok sent =>
      -- The id is free, so the request is registered.
      have hpending : sent.pending = s.pending := by
        obtain ⟨payload, transport, -, -, rfl⟩ := transmit_eq_ok ht
        rfl
      have hfresh := nextId_free hfree
      rw [← hpending] at hfresh
      obtain ⟨pending, hregister⟩ : ∃ pending,
          sent.pending.register s.nextId completion sent.clock = .ok pending :=
        ⟨_, RequestCache.register_eq_ok.2 ⟨hfresh.1, hfresh.2, rfl⟩⟩
      simp only [announce, ht, hregister] at hannounce
      cases hannounce

end Session

end Vdc
