import Mathlib.Data.List.Nodup
import Mathlib.Data.List.Pairwise
import Vdc.Proofs.Session.Ledger

/-!
# Every request ends once

The invariants of a ledger that together say that a request ends once and for a reason:

* `Ledger.Sound`: the pending ids differ and none is reserved;
* `Ledger.Balanced`: the requests that were made are those that ended, are pending or are owed;
* `Ledger.Numbered`: as long as the counter of ids has not wrapped, no id was used twice;
* `Ledger.Founded`: pending requests are waited for, and owed and ended ones were due.

When an endpoint has been closed nothing is pending or owed, and `Endpoint.settled_close` is what
the invariants come to then.
-/

namespace Vdc

open Session

variable {σ : Type} {timeout : Nat} {l l' : Ledger σ}

namespace Turn

/-- A turn adds to the journal and takes nothing away from it. -/
theorem journal_suffix (h : Turn timeout l l') : l.journal <:+ l'.journal := by
  cases h with
  | idle new => exact List.suffix_append _ _
  | decline sent e => exact (List.suffix_append _ _).trans (List.suffix_cons _ _)
  | register => exact (List.suffix_cons _ _).trans (List.suffix_cons _ _)
  | finish => exact List.suffix_cons _ _
  | expire => exact List.suffix_cons _ _
  | answer => exact (List.suffix_cons _ _).trans (List.suffix_cons _ _)

end Turn

/-! ## Ids in a journal -/

theorem announced_of_registered {event : Event σ} {id : RequestId}
    (h : event.registered? = some id) : event.announced? = some id := by
  cases event <;> first | exact h | cases h

/-- Two events in which the same is seen are one, if what is seen differs from event to event. -/
theorem eq_of_nodup_filterMap {α β : Type} {f : α → Option β} {list : List α}
    (h : (list.filterMap f).Nodup) {a b : α} {x : β} (ha : a ∈ list) (hb : b ∈ list)
    (hfa : f a = some x) (hfb : f b = some x) : a = b := by
  by_contra hne
  have hsymm : Std.Symm fun a b => ∀ x, f a = some x → ∀ y, f b = some y → x ≠ y :=
    ⟨fun _ _ hab x hx y hy hxy => hab y hy x hx hxy.symm⟩
  exact (List.pairwise_filterMap.1 h).forall ha hb hne x hfa x hfb rfl

theorem mem_announced_of_registered {journal : List (Event σ)} {id : RequestId}
    (h : id ∈ journal.filterMap Event.registered?) : id ∈ journal.filterMap Event.announced? := by
  obtain ⟨event, hevent, hid⟩ := List.mem_filterMap.1 h
  exact List.mem_filterMap.2 ⟨event, hevent, announced_of_registered hid⟩

theorem filterMap_eq_nil_of_idle {new : List (Event σ)} (h : ∀ event ∈ new, event.IsIdle) :
    new.filterMap Event.announced? = [] ∧ new.filterMap Event.registered? = [] ∧
      new.filterMap Event.completed? = [] := by
  refine ⟨List.filterMap_eq_nil_iff.2 fun event hevent => (h event hevent).1,
    List.filterMap_eq_nil_iff.2 fun event hevent => ?_,
    List.filterMap_eq_nil_iff.2 fun event hevent => (h event hevent).2⟩
  have hnone := (h event hevent).1
  cases event <;> first | rfl | cases hnone

theorem isIdle_sent (sent : List Message) :
    ∀ event ∈ sent.map (Event.sent (σ := σ)), event.IsIdle := by
  intro event hevent
  obtain ⟨m, -, rfl⟩ := List.mem_map.1 hevent
  exact ⟨rfl, rfl⟩

namespace Ledger

/-! ## Pending ids -/

/-- The pending ids differ and none is reserved. -/
structure Sound (l : Ledger σ) : Prop where
  nodup : l.ids.Nodup
  unreserved : reservedId ∉ l.ids

/-- With some of the pending requests gone the ids are sound still. -/
theorem Sound.mono (h : l.Sound) {ids : List RequestId} (hids : l'.ids.Sublist ids)
    (hperm : ids.Perm l.ids) : l'.Sound where
  nodup := (hperm.nodup_iff.2 h.nodup).sublist hids
  unreserved := fun hmem => h.unreserved (hperm.mem_iff.1 (hids.subset hmem))

/-- The other pending requests have other ids. -/
theorem Sound.id_ne (h : l.Sound) {request other : PendingRequest (Outcome → Script σ)}
    {before after : List (PendingRequest (Outcome → Script σ))}
    (hentries : l.entries = before ++ request :: after) (hother : other ∈ before ++ after) :
    other.id ≠ request.id := by
  have hperm : l.ids.Perm (request.id :: (before ++ after).map PendingRequest.id) := by
    rw [ids, hentries]
    exact List.perm_middle.map PendingRequest.id
  intro heq
  exact (List.nodup_cons.1 (hperm.nodup_iff.1 h.nodup)).1 (List.mem_map.2 ⟨other, hother, heq⟩)

theorem Sound.turn (h : l.Sound) (hturn : Turn timeout l l') : l'.Sound := by
  cases hturn with
  | idle | decline | finish => exact ⟨h.nodup, h.unreserved⟩
  | register _ m created completion link hlink hid hfree =>
    have hnodup : (l.ids ++ [l.nextId]).Nodup :=
      List.nodup_append.2 ⟨h.nodup, List.nodup_singleton _, by
        rintro id hmem _ hnext rfl
        exact hfree (List.mem_singleton.1 hnext ▸ hmem)⟩
    refine ⟨by simpa only [ids, List.map_append, List.map_cons, List.map_nil] using hnodup, ?_⟩
    simp only [ids, List.map_append, List.map_cons, List.map_nil, List.mem_append,
      List.mem_singleton, not_or]
    exact ⟨h.unreserved, fun heq => hid heq.symm⟩
  | expire _ trigger expiry expired kept howed hperm =>
    exact h.mono ((List.sublist_append_right expired kept).map _) (hperm.map _)
  | answer _ payload code request status before after kept howed hentries hkept =>
    have hsub : kept.Sublist l.entries := by
      rw [hkept, hentries]
      exact (List.sublist_cons_self request after).append_left before
    exact h.mono (hsub.map _) (.refl l.ids)

/-! ## The balance of requests -/

/-- Every request that was made has ended, is pending or is owed, and as often as it was made. -/
def Balanced (l : Ledger σ) : Prop :=
  (l.journal.filterMap Event.completed? ++ (l.ids ++ l.owed.map (·.1.id))).Perm
    (l.journal.filterMap Event.registered?)

theorem Balanced.turn (h : l.Balanced) (hturn : Turn timeout l l') : l'.Balanced := by
  -- How often an id is made and ended is counted on both sides of the turn.
  refine List.perm_iff_count.2 fun id => ?_
  have hbalance := h.count_eq id
  cases hturn with
  | idle _ new hidle =>
    obtain ⟨-, hregistered, hcompleted⟩ := filterMap_eq_nil_of_idle hidle
    simpa [hregistered, hcompleted, ids] using hbalance
  | decline _ sent e =>
    obtain ⟨-, hregistered, hcompleted⟩ := filterMap_eq_nil_of_idle (isIdle_sent sent (σ := σ))
    simpa [List.filterMap_cons, Event.registered?, Event.completed?, hregistered, hcompleted, ids]
      using hbalance
  | register _ m created completion =>
    simp only [List.count_append, ids, List.map_append, List.map_cons, List.map_nil,
      List.filterMap_cons, Event.registered?, Event.completed?, List.count_cons,
      List.count_nil] at hbalance ⊢
    omega
  | finish _ request expiry status =>
    simp only [List.count_append, ids, List.map_cons, List.filterMap_cons, Event.registered?,
      Event.completed?, List.count_cons] at hbalance ⊢
    omega
  | expire _ trigger expiry expired kept howed hperm hidle =>
    have hnew : ∀ event ∈ [trigger], event.IsIdle := by simpa using hidle
    obtain ⟨-, hregistered, hcompleted⟩ := filterMap_eq_nil_of_idle hnew
    have hcount := (hperm.map PendingRequest.id).count_eq id
    have howedIds : (expired.map (·, expiry)).map (·.1.id) = expired.map PendingRequest.id := by
      simp
    rw [← List.singleton_append, List.filterMap_append, List.filterMap_append, hregistered,
      hcompleted, howedIds]
    simp only [List.nil_append, List.count_append, List.map_append, ids, howed, List.map_nil,
      List.count_nil] at hbalance hcount ⊢
    omega
  | answer _ payload code request status before after kept howed hentries hkept =>
    simp only [List.count_append, ids, List.map_append, List.map_cons, List.filterMap_cons,
      Event.registered?, Event.completed?, List.count_cons, hentries, hkept] at hbalance ⊢
    omega

/-! ## The numbering of requests -/

/-- The ids were drawn one after the other, and none twice. -/
structure Numbered (l : Ledger σ) : Prop where
  lastId_eq : l.lastId.toNat = (l.journal.filterMap Event.announced?).length
  le_lastId : ∀ id ∈ l.journal.filterMap Event.announced?, id.toNat ≤ l.lastId.toNat
  nodup : (l.journal.filterMap Event.announced?).Nodup

/-- A pending request was made. -/
theorem Balanced.mem_registered (h : l.Balanced) {id : RequestId} (hid : id ∈ l.ids) :
    id ∈ l.journal.filterMap Event.registered? :=
  h.subset (List.mem_append_right _ (List.mem_append_left _ hid))

namespace Numbered

/-- The next id follows the last one: all pending ids are behind it, and the counter does not
wrap. -/
theorem toNat_nextId (h : l.Numbered) (hbalanced : l.Balanced)
    (hcount : (l.journal.filterMap Event.announced?).length + 1 < 2 ^ 32) :
    l.nextId.toNat = l.lastId.toNat + 1 := by
  have hnext : (l.lastId + 1).toNat = l.lastId.toNat + 1 := by
    have hlast := h.lastId_eq
    rw [UInt32.toNat_add, UInt32.toNat_one]
    omega
  have hid : l.lastId + 1 ≠ reservedId := by
    intro hzero
    rw [hzero] at hnext
    cases hnext
  have hfree : l.entries.any (·.id == l.lastId + 1) = false := by
    refine List.any_eq_false.2 fun request hrequest htaken => ?_
    have hmem : l.lastId + 1 ∈ l.ids := List.mem_map.2 ⟨request, hrequest, beq_iff_eq.1 htaken⟩
    have hle := h.le_lastId _ (mem_announced_of_registered (hbalanced.mem_registered hmem))
    omega
  have hdraw : l.nextId = l.lastId + 1 := by simp [nextId, freeId, hid, hfree]
  rw [hdraw, hnext]

theorem same (h : l.Numbered) (hlast : l'.lastId = l.lastId)
    (hannounced : l'.journal.filterMap Event.announced? = l.journal.filterMap Event.announced?) :
    l'.Numbered := by
  refine ⟨?_, ?_, ?_⟩ <;> rw [hannounced]
  · rw [hlast, h.lastId_eq]
  · rw [hlast]
    exact h.le_lastId
  · exact h.nodup

theorem next (h : l.Numbered) (hbalanced : l.Balanced) (hlast : l'.lastId = l.nextId)
    (hannounced : l'.journal.filterMap Event.announced? =
      l.nextId :: l.journal.filterMap Event.announced?)
    (hcount : (l'.journal.filterMap Event.announced?).length < 2 ^ 32) : l'.Numbered := by
  rw [hannounced, List.length_cons] at hcount
  have hnext := h.toNat_nextId hbalanced hcount
  refine ⟨?_, ?_, ?_⟩ <;> rw [hannounced]
  · rw [hlast, hnext, h.lastId_eq, List.length_cons]
  · rw [hlast]
    refine List.forall_mem_cons.2 ⟨Nat.le_refl _, fun id hid => ?_⟩
    have hle := h.le_lastId id hid
    omega
  · refine List.nodup_cons.2 ⟨fun hmem => ?_, h.nodup⟩
    have hle := h.le_lastId _ hmem
    omega

theorem turn (h : l.Numbered) (hbalanced : l.Balanced) (hturn : Turn timeout l l')
    (hcount : (l'.journal.filterMap Event.announced?).length < 2 ^ 32) : l'.Numbered := by
  cases hturn with
  | idle _ new hidle =>
    refine h.same rfl ?_
    rw [List.filterMap_append, (filterMap_eq_nil_of_idle hidle).1, List.nil_append]
  | decline _ sent e =>
    refine h.next hbalanced rfl ?_ hcount
    change l.nextId :: (sent.map Event.sent ++ l.journal).filterMap Event.announced? = _
    rw [List.filterMap_append, (filterMap_eq_nil_of_idle (isIdle_sent sent)).1, List.nil_append]
  | register => exact h.next hbalanced rfl rfl hcount
  | finish => exact h.same rfl rfl
  | expire _ trigger expiry expired kept howed hperm hidle =>
    exact h.same rfl (List.filterMap_cons_none hidle.1)
  | answer => exact h.same rfl rfl

end Numbered

/-! ## The causes of completions -/

/-- Pending requests are waited for, owed ones are due, and those that ended were due then. -/
structure Founded (timeout : Nat) (l : Ledger σ) : Prop where
  pending : ∀ request ∈ l.entries, ∃ link, Awaited request link l.journal
  owed : ∀ request ∈ l.owed, Due timeout request.1 (outcomeOf request.2) l.journal
  ended : ∀ id outcome completion status past,
    .completed id outcome completion status :: past <:+ l.journal →
      ∃ created, Due timeout ⟨id, created, completion⟩ outcome past

/-- What ended before new events that end nothing was due. -/
theorem Founded.ended_append (h : l.Founded timeout) (new : List (Event σ))
    (hnew : ∀ event ∈ new, event.completed? = none) (id : RequestId) (outcome : Outcome)
    (completion : Outcome → Script σ) (status : Status) (past : List (Event σ))
    (hsuffix : .completed id outcome completion status :: past <:+ new ++ l.journal) :
    ∃ created, Due timeout ⟨id, created, completion⟩ outcome past := by
  induction new with
  | nil => exact h.ended id outcome completion status past hsuffix
  | cons event rest ih =>
    rcases List.suffix_cons_iff.1 hsuffix with heq | hsuffix
    · have hnone := hnew event List.mem_cons_self
      rw [← (List.cons.inj heq).1] at hnone
      cases hnone
    · exact ih (fun event hevent => hnew event (List.mem_cons_of_mem _ hevent)) hsuffix

theorem Founded.turn (h : l.Founded timeout) (hsound : l.Sound) (hturn : Turn timeout l l') :
    l'.Founded timeout := by
  have hawaited (new : List (Event σ)) {request : PendingRequest (Outcome → Script σ)}
      (hrequest : request ∈ l.entries) (hnew : ∀ event ∈ new, event.Spares request.id) :
      ∃ link, Awaited request link (new ++ l.journal) := by
    obtain ⟨link, hlink⟩ := h.pending request hrequest
    exact ⟨link, hlink.append hnew⟩
  cases hturn with
  | idle _ new hidle hspares howed =>
    refine ⟨fun request hrequest => hawaited _ hrequest fun event hevent =>
      hspares event hevent request hrequest, fun request hrequest => ?_,
      h.ended_append new fun event hevent => (hidle event hevent).2⟩
    exact (h.owed request hrequest).append (howed (List.ne_nil_of_mem hrequest))
  | decline _ sent e =>
    have hnew : ∀ event ∈ Event.declined (σ := σ) l.nextId e :: sent.map .sent,
        event.IsScripted ∧ event.completed? = none := by
      refine List.forall_mem_cons.2 ⟨⟨trivial, rfl⟩, fun event hevent => ?_⟩
      obtain ⟨m, -, rfl⟩ := List.mem_map.1 hevent
      exact ⟨trivial, rfl⟩
    refine ⟨fun request hrequest => ?_, fun request hrequest => ?_, ?_⟩
    · exact hawaited _ hrequest fun event hevent => (hnew event hevent).1.spares request.id
    · exact (h.owed request hrequest).append fun event hevent => (hnew event hevent).1
    · exact h.ended_append _ fun event hevent => (hnew event hevent).2
  | register _ m created completion link hlink hid hfree =>
    have hnew : ∀ event ∈ [Event.registered l.nextId created completion, .sent m],
        event.IsScripted ∧ event.completed? = none := by
      simp [Event.IsScripted, Event.completed?]
    refine ⟨fun request hrequest => ?_, fun request hrequest => ?_, ?_⟩
    · rcases List.mem_append.1 hrequest with hold | hnext
      · exact hawaited _ hold fun event hevent => (hnew event hevent).1.spares request.id
      · obtain rfl := List.mem_singleton.1 hnext
        exact ⟨link, [], .sent m :: l.journal, rfl, hlink, by simp⟩
    · exact (h.owed request hrequest).append fun event hevent => (hnew event hevent).1
    · exact h.ended_append _ fun event hevent => (hnew event hevent).2
  | finish l request expiry status =>
    -- The completion that runs was owed, so its request was due.
    have hnew : ∀ event ∈ [Event.completed request.id (outcomeOf expiry) request.completion status],
        event.IsScripted := by simp [Event.IsScripted]
    refine ⟨fun request hrequest => ?_, fun other hother => ?_, ?_⟩
    · exact hawaited _ hrequest fun event hevent => (hnew event hevent).spares request.id
    · exact (h.owed other (List.mem_cons_of_mem _ hother)).append hnew
    · intro id outcome completion status past hsuffix
      rcases List.suffix_cons_iff.1 hsuffix with heq | hsuffix
      · obtain ⟨hevent, rfl⟩ := List.cons.inj heq
        obtain ⟨rfl, rfl, rfl, -⟩ := Event.completed.inj hevent
        exact ⟨request.created, h.owed (request, expiry) List.mem_cons_self⟩
      · exact h.ended id outcome completion status past hsuffix
  | expire _ trigger expiry expired kept howed hperm hidle hspares hends =>
    have hkept : ∀ request ∈ kept, request ∈ l.entries := fun request hrequest =>
      hperm.subset (List.mem_append_right _ hrequest)
    refine ⟨fun request hrequest => ?_, fun owed hmem => ?_, ?_⟩
    · refine hawaited [trigger] (hkept request hrequest) ?_
      simpa using hspares request hrequest
    · obtain ⟨request, hrequest, rfl⟩ := List.mem_map.1 hmem
      obtain ⟨link, hlink⟩ := h.pending request (hperm.subset (List.mem_append_left _ hrequest))
      exact ⟨[], trigger, l.journal, link, rfl, by simp, hlink,
        hends request hrequest link hlink.connectionOf_eq⟩
    · refine h.ended_append [trigger] ?_
      simpa using hidle.2
  | answer _ payload code request status before after kept howed hentries hkept hreply =>
    have hsub : kept.Sublist l.entries := by
      rw [hkept, hentries]
      exact (List.sublist_cons_self request after).append_left before
    obtain ⟨link, hlink⟩ := h.pending request (by simp [hentries])
    have hdue : Due timeout request (.answered code) (.handled payload :: l.journal) :=
      ⟨[], .handled payload, l.journal, link, rfl, by simp, hlink, hreply⟩
    refine ⟨fun other hother => ?_, fun owed hmem => ?_, ?_⟩
    · -- The reply is to the one request with its id; it spares all the others.
      have hne : other.id ≠ request.id := hsound.id_ne hentries (hkept ▸ hother)
      refine hawaited [.completed _ _ _ _, .handled payload] (hsub.subset hother) ?_
      simp only [List.forall_mem_cons, List.not_mem_nil]
      refine ⟨trivial, fun code' hreply' => hne (hreply'.unique hreply).1, by simp⟩
    · rw [howed] at hmem
      cases hmem
    · intro id outcome completion status past hsuffix
      rcases List.suffix_cons_iff.1 hsuffix with heq | hsuffix
      · obtain ⟨hevent, rfl⟩ := List.cons.inj heq
        obtain ⟨rfl, rfl, rfl, -⟩ := Event.completed.inj hevent
        exact ⟨request.created, hdue⟩
      · exact h.ended_append [.handled payload] (by simp [Event.completed?]) _ _ _ _ _
          hsuffix

end Ledger

/-! ## What a run preserves -/

/-- What is true of a session at every moment of a run. -/
structure Session.Moment.Kept (timeout : Nat) (m : Moment σ) : Prop where
  coherent : m.session.Coherent
  tracked : m.session.Tracked
  responseTimeout_eq : m.session.pending.responseTimeout = timeout
  sound : m.ledger.Sound
  balanced : m.ledger.Balanced
  founded : m.ledger.Founded timeout
  numbered : (m.ledger.journal.filterMap Event.announced?).length < 2 ^ 32 → m.ledger.Numbered

theorem Session.Moment.Kept.move {m m' : Moment σ} (h : m.Kept timeout) (hmove : Move m m') :
    m'.Kept timeout := by
  have hturn : Turn timeout m.ledger m'.ledger :=
    h.responseTimeout_eq ▸ hmove.turn h.coherent h.tracked h.sound.unreserved
  refine ⟨h.coherent.move hmove, h.tracked.move hmove,
    hmove.responseTimeout_eq.trans h.responseTimeout_eq, h.sound.turn hturn, h.balanced.turn hturn,
    h.founded.turn h.sound hturn, fun hcount => ?_⟩
  -- The journal only grows, so a bound on its ids holds at all earlier moments as well.
  have hle := (hturn.journal_suffix.sublist.filterMap Event.announced?).length_le
  exact (h.numbered (by omega)).turn h.balanced hturn hcount

theorem Session.Moment.kept_new (dsuid : String) (config : Config) (memory : σ) (now : Nat) :
    (Moment.mk (Session.new dsuid config memory now) []).Kept config.responseTimeout where
  coherent := coherent_new dsuid config memory now
  tracked := rfl
  responseTimeout_eq := rfl
  sound := ⟨List.nodup_nil, List.not_mem_nil⟩
  balanced := .refl _
  founded := ⟨by simp [Moment.ledger, Session.new, RequestCache.new],
    by simp [Moment.ledger], by simp [Moment.ledger, Session.new]⟩
  numbered _ := ⟨rfl, by simp [Moment.ledger, Session.new], List.nodup_nil⟩

/-- What is true of a journal when nothing is pending or owed any more. An attempt to make a request
returns its id if the journal has it as registered, and an error if it has it as declined,
`Session.announce_journal`. -/
structure Settled (timeout : Nat) (journal : List (Event σ)) : Prop where
  /-- Every request that was made has ended exactly once, with the completion it was made with. -/
  once : ∀ id created completion, .registered id created completion ∈ journal →
    (journal.filterMap Event.completed?).count id = 1 ∧
      ∃ outcome status, .completed id outcome completion status ∈ journal
  /-- No completion was run for a request that was not made. -/
  never : ∀ id e, .declined id e ∈ journal → id ∉ journal.filterMap Event.completed?
  /-- Every completion was run for the request that it was made with, and had a cause. -/
  cause : ∀ id outcome completion status past,
    .completed id outcome completion status :: past <:+ journal →
      ∃ created, Due timeout ⟨id, created, completion⟩ outcome past
  /-- After a reply no other completion is run than that of the request it replies to, and that only
  if the request had not ended before. -/
  reply : ∀ payload id code past, RepliesTo payload id code →
    ∀ id' outcome completion status between, (∀ event ∈ between, event.IsScripted) →
      .completed id' outcome completion status :: (between ++ .handled payload :: past) <:+
        journal →
        id' = id ∧ outcome = .answered code ∧ id ∉ past.filterMap Event.completed?

/-- A session in which nothing is pending or owed is settled, if its ids have not wrapped. -/
theorem Session.Moment.Kept.settled {m : Moment σ} (h : m.Kept timeout)
    (hpending : m.session.pending.entries = []) (howed : m.owed = [])
    (hcount : (m.session.journal.filterMap Event.announced?).length < 2 ^ 32) :
    Settled timeout m.session.journal := by
  have hnumbered := h.numbered hcount
  have hbalance : (m.session.journal.filterMap Event.completed?).Perm
      (m.session.journal.filterMap Event.registered?) := by
    simpa [Ledger.Balanced, Ledger.ids, Moment.ledger, hpending, howed] using h.balanced
  have hregistered : (m.session.journal.filterMap Event.registered?).Nodup :=
    List.pairwise_filterMap.2 <| (List.pairwise_filterMap.1 hnumbered.nodup).imp
      fun hab x hx y hy => hab x (announced_of_registered hx) y (announced_of_registered hy)
  have hcompleted := hbalance.nodup_iff.2 hregistered
  refine ⟨fun id created completion hmade => ?_, fun id e hdeclined hmem => ?_, h.founded.ended,
    fun payload id code past hreply id' outcome completion status between hbetween hsuffix => ?_⟩
  · have hmem : id ∈ m.session.journal.filterMap Event.completed? :=
      hbalance.mem_iff.2 (List.mem_filterMap.2 ⟨_, hmade, rfl⟩)
    refine ⟨List.count_eq_one_of_mem hcompleted hmem, ?_⟩
    obtain ⟨event, hevent, hid⟩ := List.mem_filterMap.1 hmem
    cases event with
    | completed id' outcome completion' status =>
      cases hid
      obtain ⟨later, past, hjournal⟩ := List.append_of_mem hevent
      have hsuffix : .completed id outcome completion' status :: past <:+ m.session.journal :=
        ⟨later, hjournal.symm⟩
      obtain ⟨created', hdue⟩ := h.founded.ended id outcome completion' status past hsuffix
      have hmade' : .registered id created' completion' ∈ m.session.journal := by
        rw [hjournal]
        exact List.mem_append_right _ (List.mem_cons_of_mem _ hdue.registered_mem)
      have hsame := eq_of_nodup_filterMap hregistered hmade hmade' rfl rfl
      obtain ⟨-, -, rfl⟩ := Event.registered.inj hsame
      exact ⟨outcome, status, hevent⟩
    | _ => cases hid
  · obtain ⟨event, hevent, hid⟩ := List.mem_filterMap.1 (hbalance.mem_iff.1 hmem)
    have hannounced := announced_of_registered hid
    have heq := eq_of_nodup_filterMap hnumbered.nodup hdeclined hevent rfl hannounced
    rw [← heq] at hid
    cases hid
  · obtain ⟨created, hdue⟩ := h.founded.ended id' outcome completion status _ hsuffix
    obtain ⟨code', rfl, hreply'⟩ := hdue.eq_of_handled hbetween
    obtain ⟨rfl, rfl⟩ := hreply'.unique hreply
    refine ⟨rfl, rfl, fun hmem => ?_⟩
    have hnodup := (hsuffix.sublist.filterMap Event.completed?).nodup hcompleted
    refine (List.nodup_cons.1 hnodup).1 ?_
    rw [List.filterMap_append]
    exact List.mem_append_right _ hmem

namespace Endpoint

variable {app : Application σ} {memory : σ} {dsuid : String} {config : Config}
  {announcer : Option Announcer} {port : UInt16} {e : Endpoint σ}

/-- A session is without a connection once its endpoint has closed it. -/
theorem unheld_close (he : e.isClosed = true → e.session.transport.held = none) :
    e.close.session.transport.held = none := by
  unfold close
  split
  · next hclosed => exact he hclosed
  · have hunheld := (Session.of_disconnect e.session).1
    simp only [Session.note, Transport.close, Transport.reset, hunheld]

/-- An endpoint that is closed gets no connection any more. -/
theorem unheld_of_isClosed (inputs : List (Input σ))
    (he : e.isClosed = true → e.session.transport.held = none) :
    (e.run inputs).isClosed = true → (e.run inputs).session.transport.held = none := by
  induction inputs generalizing e with
  | nil => exact he
  | cons input rest ih =>
    refine ih ?_
    cases input with
    | work meanwhile =>
      by_cases hclosed : e.isClosed = true
      · simpa [step, work, hclosed] using he
      · simp [step, work, hclosed]
    | perform script => exact fun hclosed => (Session.run_of_unheld script (he hclosed)).1
    | close => exact fun _ => unheld_close he
    | happen happening =>
      intro hclosed
      have hname := e.session.transport.name_happen happening
      rwa [he hclosed, Option.map_none, Option.map_eq_none_iff] at hname

/-- When an endpoint has been closed, every request that was ever made in it has ended exactly once,
with a reply, at an age above the timeout or with its connection, as long as fewer ids were drawn
than there are. -/
theorem settled_close (h : start app memory dsuid config announcer port = .ready e)
    (inputs : List (Input σ))
    (hcount : ((e.run inputs).close.session.journal.filterMap Event.announced?).length < 2 ^ 32) :
    Settled config.responseTimeout (e.run inputs).close.session.journal := by
  obtain ⟨hsession, hopen⟩ := of_start h
  have hmoves : Session.Moves ⟨e.session, []⟩ ⟨(e.run inputs).close.session, []⟩ :=
    (moves_inputs e inputs).trans (moves_step (e.run inputs) .close)
  have hkept : (Session.Moment.mk (e.run inputs).close.session []).Kept config.responseTimeout := by
    refine hmoves.preserve (fun hmove h => h.move hmove) ?_
    rw [hsession]
    exact Session.Moment.kept_new dsuid config memory 0
  have hunheld := unheld_close (unheld_of_isClosed (e := e) inputs (by simp [hopen]))
  exact hkept.settled (hkept.coherent.pending_of_unheld hunheld).2 rfl hcount

/-- An endpoint announces itself to a peer that never answers, and is closed. Its completion has run
once then. -/
theorem settled_close_unanswered :
    ∃ e : Endpoint Nat, start .default 0 "own" .default none 0 = .ready e ∧
      ∃ inputs, (e.run inputs).close.session.journal.filterMap Event.registered? = [1] ∧
        (e.run inputs).session.memory = 0 ∧ (e.run inputs).close.session.memory = 1 ∧
        Settled Config.default.responseTimeout (e.run inputs).close.session.journal := by
  have h : start .default 0 "own" .default none 0 =
      .ready ⟨.default, Session.new "own" .default 0 0, none, false⟩ := rfl
  refine ⟨_, h, [.arrive (.fresh "peer"), .work,
    .perform (.announce (.container "own") (fun _ => .remember (· + 1) .done) fun _ => .done)],
    by decide +kernel, by decide +kernel, by decide +kernel, ?_⟩
  exact settled_close h _ (by decide +kernel)

end Endpoint

end Vdc
