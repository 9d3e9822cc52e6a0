import Vdc.Proofs.Frame
import Vdc.Transport

/-!
# What a transport reads and writes

A connection is read in two steps, the length of a frame and then its payload, and `Frame.parse`
looks at all that has arrived at once. `Link.readFrame_eq` is the statement that they agree on every
stream of bytes. The other lemmas here tell what each operation of a transport can come to.
-/

namespace Vdc

namespace Link

theorem readExact_of_le {ioTimeout size : Nat} {l : Link} (h : size ≤ l.unread.length) :
    l.readExact ioTimeout size =
      .bytes (l.unread.take size) { l with unread := l.unread.drop size } := if_pos h

theorem readExact_of_lt {ioTimeout size : Nat} {l : Link} (h : l.unread.length < size) :
    l.readExact ioTimeout size = l.shortfall ioTimeout := if_neg (by omega)

theorem shortfall_ne_bytes (ioTimeout : Nat) (l : Link) (bytes : List UInt8) (link : Link) :
    l.shortfall ioTimeout ≠ .bytes bytes link := by
  unfold shortfall
  split
  · simp
  · split <;> simp

/-- Without the two bytes of its length no frame is begun. -/
theorem readFrame_of_lt {limit ioTimeout : Nat} {l : Link}
    (h : l.unread.length < Frame.headerSize) :
    l.readFrame limit ioTimeout = l.shortfall ioTimeout := by
  rw [readFrame, readExact_of_lt h]
  split
  · next header link hbytes => exact absurd hbytes (l.shortfall_ne_bytes ioTimeout header link)
  · rfl

/-- Reading a frame in two steps comes to what is found at the front of all that is unread. -/
theorem readFrame_eq (limit ioTimeout : Nat) (l : Link) :
    l.readFrame limit ioTimeout =
      match Frame.parse limit l.unread with
      | .complete payload consumed => .bytes payload { l with unread := l.unread.drop consumed }
      | .invalid fault => .failed (.protocol fault)
      | .incomplete _ => l.shortfall ioTimeout := by
  obtain ⟨name, arrived, unread, ended, writable, written, closed⟩ := l
  match unread with
  | [] | [_] => exact readFrame_of_lt (by simp [Frame.headerSize])
  | high :: low :: rest =>
    have hheader : Frame.headerSize ≤ (high :: low :: rest).length := by simp [Frame.headerSize]
    rw [readFrame, readExact_of_le hheader]
    cases hlength : Frame.length? limit high low with
    | error fault => simp [Frame.parse, Frame.headerSize, hlength]
    | ok length =>
      -- The payload is what follows the header, if as much has arrived.
      by_cases hrest : length ≤ rest.length
      · have hdrop : (high :: low :: rest).drop (2 + length) = rest.drop length := by
          rw [Nat.add_comm]
          rfl
        simp [readExact, Frame.parse, Frame.headerSize, hlength, hrest, hdrop]
      · have hshort : min length rest.length < length := by omega
        simp [readExact, Frame.parse, Frame.headerSize, hlength, hrest, hshort, shortfall]

/-- What reading a frame fails with, by what stands at the front of all that is unread. -/
def fault? (limit ioTimeout : Nat) (l : Link) : Option Error :=
  match Frame.parse limit l.unread with
  | .complete _ _ => none
  | .invalid fault => some (.protocol fault)
  | .incomplete _ =>
    if l.ended then some (.transport .unexpectedEof)
    else if ioTimeout = 0 then none
    else some .timeout

theorem readFrame_of_fault {limit ioTimeout : Nat} {l : Link} {e : Error}
    (h : l.fault? limit ioTimeout = some e) : l.readFrame limit ioTimeout = .failed e := by
  rw [readFrame_eq]
  unfold fault? at h
  cases hparse : Frame.parse limit l.unread with
  | complete payload consumed => simp [hparse] at h
  | invalid fault =>
    simp only [hparse, Option.some.injEq] at h
    rw [← h]
  | incomplete needed =>
    simp only [hparse] at h
    simp only [shortfall]
    split at h
    · next hended => rw [if_pos hended, Option.some.inj h]
    · next hended =>
      split at h
      · cases h
      · next htimeout => rw [if_neg hended, if_neg htimeout, Option.some.inj h]

end Link

namespace Transport

/-- A frame that is written is added to what was written on the held connection, which takes it
whole. -/
theorem writeFrame_eq_ok {t t' : Transport} {payload : List UInt8}
    (h : t.writeFrame payload = .ok t') :
    ∃ frame link, Frame.serialize t.frameLimit payload = .ok frame ∧ t.held = some link ∧
      link.writable = true ∧
      t' = { t with held := some { link with written := link.written ++ frame } } := by
  unfold writeFrame at h
  cases hl : t.held with
  | none => simp [hl, throw, throwThe, MonadExceptOf.throw] at h
  | some link =>
    cases hf : Frame.serialize t.frameLimit payload with
    | error e => simp [hl, hf, bind, Except.bind] at h
    | ok frame =>
      by_cases hw : link.writable = true
      · refine ⟨frame, link, rfl, rfl, hw, ?_⟩
        simpa [hl, hf, bind, Except.bind, Link.write, hw, pure, Except.pure, eq_comm] using h
      · simp [hl, hf, bind, Except.bind, Link.write, hw] at h

/-- What happens without the endpoint's doing does not change which connection is held. -/
theorem name_happen (t : Transport) (happening : Happening) :
    (t.happen happening).held.map Link.name = t.held.map Link.name := by
  have hupdate (name : String) (f : Link → Link) (hf : ∀ l, (f l).name = l.name) :
      (t.update name f).held.map Link.name = t.held.map Link.name := by
    cases hl : t.held with
    | none => simp [update, hl]
    | some l =>
      simp only [update, hl, Option.map_some, Option.some.injEq]
      split
      · exact hf l
      · rfl
  cases happening with
  | elapse | arrive => rfl
  | deliver | finish | jam | ease => exact hupdate _ _ fun _ => rfl

/-- A connection that waits is accepted if none is held, and turned away otherwise. -/
theorem accept_cases (t : Transport) (reject : List UInt8) :
    (∃ e, t.accept reject = (.error e, t)) ∨
    ∃ (newcomer : Link) (waiting : List Link), t.waiting = newcomer :: waiting ∧
      (t.held = none ∧ t.listening = true ∧ t.accept reject = (.ok (.connected newcomer.name),
          { t with waiting := waiting, held := some newcomer }) ∨
        t.held ≠ none ∧ t.accept reject =
          ((t.turnAway reject newcomer).1.map fun _ => .rejected newcomer.name,
            { t with waiting := waiting, past := (t.turnAway reject newcomer).2 :: t.past })) := by
  unfold accept
  by_cases hl : t.listening = true
  · simp only [hl, Bool.not_true, Bool.false_eq_true, if_false]
    cases t.waiting with
    | nil => exact .inl ⟨_, rfl⟩
    | cons newcomer waiting =>
      refine .inr ⟨newcomer, waiting, rfl, ?_⟩
      cases t.held with
      | none => exact .inl ⟨rfl, trivial, rfl⟩
      | some link => exact .inr ⟨by simp, rfl⟩
  · exact .inl ⟨.notConnected, by simp [hl]⟩

/-- A frame is read from the held connection: it stands at the front of what is unread there, and
only what comes after it is unread then. -/
theorem readFrame_eq_frame {t t' : Transport} {payload : List UInt8}
    (h : t.readFrame = (.frame payload, t')) :
    ∃ link consumed, t.held = some link ∧
      Frame.parse t.frameLimit link.unread = .complete payload consumed ∧
      t' = { t with held := some { link with unread := link.unread.drop consumed } } := by
  unfold readFrame at h
  cases hl : t.held with
  | none => simp [hl] at h
  | some link =>
    simp only [hl, link.readFrame_eq] at h
    cases hparse : Frame.parse t.frameLimit link.unread with
    | complete payload' consumed =>
      simp only [hparse, Prod.mk.injEq, Reading.frame.injEq] at h
      obtain ⟨rfl, rfl⟩ := h
      exact ⟨link, consumed, rfl, hparse, rfl⟩
    | invalid fault => simp [hparse] at h
    | incomplete needed =>
      simp only [hparse] at h
      cases hshort : link.shortfall t.ioTimeout with
      | bytes payload' link' => exact absurd hshort (link.shortfall_ne_bytes _ _ _)
      | failed e => simp [hshort] at h
      | waiting => simp [hshort] at h

/-- The frame at the front of what is unread is read. -/
theorem readFrame_of_complete {t : Transport} {link : Link} {payload : List UInt8} {consumed : Nat}
    (hheld : t.held = some link)
    (h : Frame.parse t.frameLimit link.unread = .complete payload consumed) :
    t.readFrame = (.frame payload,
      { t with held := some { link with unread := link.unread.drop consumed } }) := by
  simp only [readFrame, hheld, link.readFrame_eq, h]

/-- A connection from which no frame can be read is closed, with the fault that its stream has. -/
theorem readFrame_of_fault {t : Transport} {link : Link} {e : Error} (hheld : t.held = some link)
    (h : link.fault? t.frameLimit t.ioTimeout = some e) : t.readFrame = (.failed e, t.reset) := by
  simp only [readFrame, hheld, link.readFrame_of_fault h]

end Transport

/-! ## What arrives -/

/-- Nothing but the arrival of bytes has changed what is read on a connection. -/
def Link.Grows (link link' : Link) : Prop :=
  link'.name = link.name ∧
    ∃ more, link'.arrived = link.arrived ++ more ∧ link'.unread = link.unread ++ more

theorem Link.Grows.of_eq {link link' : Link} (hname : link'.name = link.name)
    (harrived : link'.arrived = link.arrived) (hunread : link'.unread = link.unread) :
    link.Grows link' :=
  ⟨hname, [], by rw [harrived, List.append_nil], by rw [hunread, List.append_nil]⟩

/-- Nothing was read from a connection yet. -/
def Link.IsUnheard (link : Link) : Prop := link.arrived = link.unread

theorem Link.Grows.isUnheard {link link' : Link} (h : link.Grows link') (hlink : link.IsUnheard) :
    link'.IsUnheard := by
  obtain ⟨-, more, harrived, hunread⟩ := h
  rw [Link.IsUnheard, harrived, hunread, hlink]

/-- Nothing but the arrival of bytes and of connections has changed what is read on a
transport. -/
structure Transport.Grows (t t' : Transport) : Prop where
  frameLimit : t'.frameLimit = t.frameLimit
  ioTimeout : t'.ioTimeout = t.ioTimeout
  past : t'.past = t.past
  held : ∃ grow : Link → Link, t'.held = t.held.map grow ∧ ∀ link : Link, link.Grows (grow link)
  waiting : (∀ link ∈ t.waiting, link.IsUnheard) → ∀ link ∈ t'.waiting, link.IsUnheard

namespace Transport

theorem Grows.refl (t : Transport) : t.Grows t where
  frameLimit := rfl
  ioTimeout := rfl
  past := rfl
  held := ⟨id, by simp, fun _ => .of_eq rfl rfl rfl⟩
  waiting h := h

theorem grows_writeFrame {t t' : Transport} {payload : List UInt8}
    (h : t.writeFrame payload = .ok t') : t.Grows t' := by
  obtain ⟨frame, link, -, hheld, -, rfl⟩ := writeFrame_eq_ok h
  refine ⟨rfl, rfl, rfl, ⟨fun l => { l with written := l.written ++ frame }, ?_, ?_⟩, id⟩
  · rw [hheld, Option.map_some]
  · exact fun _ => .of_eq rfl rfl rfl

theorem grows_update (t : Transport) (name : String) {f : Link → Link}
    (hf : ∀ link : Link, link.Grows (f link)) : t.Grows (t.update name f) := by
  have hchange (link : Link) : link.Grows (if link.name = name then f link else link) := by
    split
    · exact hf link
    · exact .of_eq rfl rfl rfl
  refine ⟨rfl, rfl, rfl, ⟨_, rfl, hchange⟩, fun hwaiting link hlink => ?_⟩
  obtain ⟨link', hlink', rfl⟩ := List.mem_map.1 hlink
  exact (hchange link').isUnheard (hwaiting link' hlink')

theorem grows_happen (t : Transport) (happening : Happening) : t.Grows (t.happen happening) := by
  cases happening with
  | elapse => exact .refl t
  | arrive link =>
    refine ⟨rfl, rfl, rfl, ⟨id, by simp [happen, arrive], fun _ => .of_eq rfl rfl rfl⟩, ?_⟩
    intro hwaiting link' hlink'
    rcases List.mem_append.1 hlink' with hold | hnew
    · exact hwaiting link' hold
    · rw [List.mem_singleton.1 hnew, Link.IsUnheard]
  | deliver name bytes => exact t.grows_update name fun _ => ⟨rfl, bytes, rfl, rfl⟩
  | finish name | jam name | ease name =>
    exact t.grows_update name fun _ => .of_eq rfl rfl rfl

end Transport

end Vdc
