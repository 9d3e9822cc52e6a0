import Mathlib.Data.List.Nodup
import Vdc.RequestCache

/-!
# Requests that are kept once

A cache of pending requests is a finite map. Whatever calls are made of it, in whatever order and at
whatever times, it loses no request and hands none out twice: `faithful` says of all sequences of
calls, beginning with an empty cache, what is pending after them and what the next call comes to.

A call that is no registration divides the requests into those that it hands out and those that
stay (`serve_cases`). Because ids are pending only once, a request that is handed out is gone under
its id, until that is registered again.
-/

namespace Vdc.RequestCache

variable {κ : Type} {c c' : RequestCache κ} {id : RequestId} {completion : κ} {created : Nat}

/-! ## Single calls -/

theorem contains_iff : c.contains id = true ↔ id ∈ c.ids := by
  simp [contains, ids]

/-- A request is registered exactly if its id is neither reserved nor pending. -/
theorem register_eq_ok :
    c.register id completion created = .ok c' ↔
      id ≠ reservedId ∧ c.contains id = false ∧
        c' = { c with entries := c.entries ++ [⟨id, created, completion⟩] } := by
  unfold register
  by_cases hz : id = reservedId
  · simp [hz]
  · cases hc : c.contains id <;> simp [hz, eq_comm]

/-- An id that is pending is that of a request, and the first such request is taken out. -/
theorem take_of_mem (h : id ∈ c.ids) :
    ∃ before request after, c.entries = before ++ request :: after ∧ request.id = id ∧
      id ∉ before.map (·.id) ∧
      c.take id = (some request, { c with entries := before ++ after }) := by
  obtain ⟨found, hfound, hid⟩ := List.mem_map.1 h
  obtain ⟨request, before, after, hbefore, hrequest, hentries, herase⟩ :=
    List.exists_of_eraseP hfound (p := (·.id == id)) (by simpa using hid)
  have hskip : before.find? (·.id == id) = none := by
    apply List.find?_eq_none.2
    intro other hother
    simpa using hbefore other hother
  have hfirst : (request :: after).find? (·.id == id) = some request :=
    List.find?_cons_of_pos hrequest
  refine ⟨before, request, after, hentries, by simpa using hrequest, ?_, ?_⟩
  · simpa using hbefore
  · rw [take, herase, hentries, List.find?_append, hskip, hfirst, Option.none_or]

/-- Where an id is not pending no request is taken out. -/
theorem take_of_not_mem (h : id ∉ c.ids) : c.take id = (none, c) := by
  have hnone : ∀ request ∈ c.entries, ¬ (request.id == id) = true := fun request hrequest hid =>
    h (List.mem_map.2 ⟨request, hrequest, by simpa using hid⟩)
  rw [take, List.find?_eq_none.2 hnone, List.eraseP_of_forall_not hnone]

/-- What is taken out under an id is a pending request with it. -/
theorem take_eq_some {request : PendingRequest κ} (h : (c.take id).1 = some request) :
    request.id = id ∧ ∃ before after, c.entries = before ++ request :: after ∧
      (c.take id).2.entries = before ++ after := by
  by_cases hmem : id ∈ c.ids
  · obtain ⟨before, found, after, hentries, hid, -, htake⟩ := take_of_mem hmem
    rw [htake] at h ⊢
    obtain rfl := Option.some.inj h
    exact ⟨hid, before, after, hentries, rfl⟩
  · rw [take_of_not_mem hmem] at h
    cases h

/-- A sweep of no entries leaves none. -/
theorem entries_sweep_of_empty (h : c.entries = []) (now : Nat) (connected : Bool) :
    (c.sweep now connected).2.entries = [] := by
  unfold sweep flush
  split
  · rfl
  · split <;> simp [h]

/-- A search for requests that are too old takes out pending requests and leaves pending ones. -/
theorem mem_of_sweep (c : RequestCache κ) (now : Nat) (connected : Bool) :
    (∀ request ∈ (c.sweep now connected).1, request.1 ∈ c.entries) ∧
      ∀ request ∈ (c.sweep now connected).2.entries, request ∈ c.entries := by
  unfold sweep
  split
  · simp [flush]
  · split
    · simp
    · refine ⟨fun request hrequest => ?_, fun request hrequest => (List.mem_filter.1 hrequest).1⟩
      obtain ⟨overdue, hoverdue, rfl⟩ := List.mem_map.1 hrequest
      exact (List.mem_filter.1 hoverdue).1

/-- A search for requests that are too old takes out only those, if it takes place with a connection
or with nothing pending. -/
theorem sweep_spec (c : RequestCache κ) (now : Nat) {connected : Bool}
    (h : connected = false → c.entries = []) :
    ∃ expired, (c.sweep now connected).1 = expired.map (·, .timedOut) ∧
      (expired ++ (c.sweep now connected).2.entries).Perm c.entries ∧
      ∀ request ∈ expired, c.responseTimeout < now - request.created := by
  unfold sweep
  split
  · next hconnected =>
    have hempty := h (by simpa using hconnected)
    exact ⟨[], by simp [flush, hempty], by simp [flush, hempty], by simp⟩
  · split
    · exact ⟨[], rfl, .refl _, by simp⟩
    · refine ⟨c.entries.filter (c.isOverdue now), rfl, List.filter_append_perm _ _, ?_⟩
      intro request hrequest
      simpa [isOverdue] using (List.mem_filter.1 hrequest).2

/-! ## Sequences of calls -/

/-- What a cache can be called for. -/
inductive Call (κ : Type) where
  | register (id : RequestId) (completion : κ) (created : Nat)
  | take (id : RequestId)
  | contains (id : RequestId)
  | sweep (now : Nat) (connected : Bool)
  | flush

/-- How a request leaves a cache. -/
inductive Exit where
  | taken
  | expired (expiry : Expiry)
deriving DecidableEq

/-- How the requests leave that a call hands out, and which ids they can have. -/
inductive Call.LetsGo : Call κ → RequestId → Exit → Prop
  | take (id : RequestId) : LetsGo (.take id) id .taken
  | timedOut (now : Nat) (id : RequestId) : LetsGo (.sweep now true) id (.expired .timedOut)
  | unheld (now : Nat) (id : RequestId) : LetsGo (.sweep now false) id (.expired .disconnected)
  | flush (id : RequestId) : LetsGo .flush id (.expired .disconnected)

/-- Serves a call: the requests that are handed out, each with how it leaves, and the cache after
it. A registration that fails changes nothing. -/
def serve (c : RequestCache κ) : Call κ → List (PendingRequest κ × Exit) × RequestCache κ
  | .register id completion created => ([], (c.register id completion created).toOption.getD c)
  | .take id => ((c.take id).1.toList.map (·, .taken), (c.take id).2)
  | .contains _ => ([], c)
  | .sweep now connected =>
    ((c.sweep now connected).1.map fun expired => (expired.1, .expired expired.2),
      (c.sweep now connected).2)
  | .flush => (c.flush.1.map fun expired => (expired.1, .expired expired.2), c.flush.2)

/-- The request that a call registers, if it registers one. -/
def registered? (c : RequestCache κ) : Call κ → Option (PendingRequest κ)
  | .register id completion created =>
    if (c.register id completion created).isOk then some ⟨id, created, completion⟩ else none
  | _ => none

/-- The cache after some calls, the last one first. -/
def after (c : RequestCache κ) : List (Call κ) → RequestCache κ
  | [] => c
  | call :: earlier => ((c.after earlier).serve call).2

/-- Requests are divided into two parts without a change of their order. -/
structure Divides (out kept entries : List (PendingRequest κ)) : Prop where
  out_sublist : out.Sublist entries
  kept_sublist : kept.Sublist entries
  perm : (out ++ kept).Perm entries

theorem Divides.none (entries : List (PendingRequest κ)) : Divides [] entries entries :=
  ⟨List.nil_sublist _, .refl _, .refl _⟩

theorem Divides.all (entries : List (PendingRequest κ)) : Divides entries [] entries :=
  ⟨.refl _, List.nil_sublist _, by rw [List.append_nil]⟩

theorem map_fst_serve_flush (c : RequestCache κ) :
    (c.flush.1.map fun expired => (expired.1, Exit.expired expired.2)).map (·.1) = c.entries := by
  simp only [flush, List.map_map, Function.comp_def, List.map_id']

/-- A call either registers a request, or it divides the requests into those that it hands out and
those that stay. -/
theorem serve_cases (c : RequestCache κ) (call : Call κ) :
    (∃ request, c.registered? call = some request ∧ request.id ≠ reservedId ∧
      request.id ∉ c.ids ∧ c.serve call = ([], { c with entries := c.entries ++ [request] })) ∨
    (c.registered? call = none ∧
      Divides ((c.serve call).1.map (·.1)) (c.serve call).2.entries c.entries) := by
  cases call with
  | register id completion created =>
    cases hregister : c.register id completion created with
    | error e =>
      right
      simp only [registered?, serve, hregister]
      exact ⟨rfl, .none c.entries⟩
    | ok c' =>
      obtain ⟨hid, hfree, rfl⟩ := register_eq_ok.1 hregister
      refine .inl ⟨⟨id, created, completion⟩, ?_, hid, fun hmem => ?_, ?_⟩
      · simp only [registered?, hregister]
        rfl
      · rw [contains_iff.2 hmem] at hfree
        cases hfree
      · simp only [serve, hregister]
        rfl
  | take id =>
    refine .inr ⟨rfl, ?_⟩
    by_cases hmem : id ∈ c.ids
    · obtain ⟨before, request, after, hentries, -, -, htake⟩ := take_of_mem hmem
      have hperm : (request :: (before ++ after)).Perm (before ++ request :: after) :=
        List.perm_middle.symm
      simp only [serve, htake, hentries]
      refine ⟨?_, ?_, hperm⟩
      · exact List.singleton_sublist.2 (List.mem_append_right _ List.mem_cons_self)
      · exact List.Sublist.append_left (List.sublist_cons_self _ _) _
    · simp only [serve, take_of_not_mem hmem]
      exact .none c.entries
  | contains id => exact .inr ⟨rfl, .none c.entries⟩
  | sweep now connected =>
    refine .inr ⟨rfl, ?_⟩
    simp only [serve, sweep]
    split
    · rw [map_fst_serve_flush]
      exact .all c.entries
    · split
      · exact .none c.entries
      · simp only [List.map_map, Function.comp_def, List.map_id']
        exact ⟨List.filter_sublist, List.filter_sublist, List.filter_append_perm _ _⟩
  | flush =>
    refine .inr ⟨rfl, ?_⟩
    simp only [serve, map_fst_serve_flush]
    exact .all c.entries

/-- What a call hands out leaves as that call lets requests go. -/
theorem letsGo_of_mem {call : Call κ} {request : PendingRequest κ} {exit : Exit}
    (h : (request, exit) ∈ (c.serve call).1) : call.LetsGo request.id exit := by
  cases call with
  | register | contains => cases h
  | take id =>
    simp only [serve, List.mem_map, Option.mem_toList, Prod.mk.injEq] at h
    obtain ⟨_, htake, rfl, rfl⟩ := h
    rw [(take_eq_some htake).1]
    exact .take id
  | sweep now connected =>
    simp only [serve, List.mem_map, Prod.mk.injEq] at h
    obtain ⟨_, hsweep, rfl, rfl⟩ := h
    cases connected with
    | false =>
      obtain ⟨_, -, rfl⟩ := List.mem_map.1 hsweep
      exact .unheld now _
    | true =>
      obtain ⟨_, hexpired, -, -⟩ := c.sweep_spec now fun h : true = false => nomatch h
      rw [hexpired] at hsweep
      obtain ⟨_, -, rfl⟩ := List.mem_map.1 hsweep
      exact .timedOut now _
  | flush =>
    simp only [serve, flush, List.map_map, List.mem_map, Function.comp_apply, Prod.mk.injEq] at h
    obtain ⟨_, -, rfl, rfl⟩ := h
    exact .flush _

variable {call : Call κ} {request : PendingRequest κ}

theorem mem_of_registered (h : c.registered? call = some request) :
    request ∈ (c.serve call).2.entries := by
  obtain ⟨_, hregistered, -, -, hserve⟩ | ⟨hnone, -⟩ := c.serve_cases call
  · obtain rfl := Option.some.inj (h.symm.trans hregistered)
    rw [hserve]
    exact List.mem_append_right _ (List.mem_singleton_self _)
  · rw [h] at hnone
    cases hnone

/-- A call loses no request. -/
theorem mem_serve_of_mem (call : Call κ) (h : request ∈ c.entries) :
    request ∈ (c.serve call).1.map (·.1) ∨ request ∈ (c.serve call).2.entries := by
  obtain ⟨_, -, -, -, hserve⟩ | ⟨-, hdivides⟩ := c.serve_cases call
  · rw [hserve]
    exact .inr (List.mem_append_left _ h)
  · exact List.mem_append.1 (hdivides.perm.mem_iff.2 h)

/-- A call makes up no request. -/
theorem mem_of_mem_serve (h : request ∈ (c.serve call).2.entries) :
    request ∈ c.entries ∨ c.registered? call = some request := by
  obtain ⟨_, hregistered, -, -, hserve⟩ | ⟨-, hdivides⟩ := c.serve_cases call
  · rw [hserve] at h
    refine (List.mem_append.1 h).imp_right fun hmem => ?_
    rw [List.mem_singleton.1 hmem]
    exact hregistered
  · exact .inl (hdivides.kept_sublist.subset h)

/-- What a call hands out was pending, in the same order. -/
theorem handed_sublist_entries (c : RequestCache κ) (call : Call κ) :
    ((c.serve call).1.map (·.1)).Sublist c.entries := by
  obtain ⟨_, -, -, -, hserve⟩ | ⟨-, hdivides⟩ := c.serve_cases call
  · rw [hserve]
    exact List.nil_sublist _
  · exact hdivides.out_sublist

/-! ## Ids -/

/-- No id is pending twice, and the reserved one is not pending. -/
structure Sound (c : RequestCache κ) : Prop where
  nodup : c.ids.Nodup
  reserved_notMem : reservedId ∉ c.ids

theorem Sound.serve (h : c.Sound) (call : Call κ) : (c.serve call).2.Sound := by
  obtain ⟨request, -, hid, hfree, hserve⟩ | ⟨-, hdivides⟩ := c.serve_cases call
  · have hids : (c.serve call).2.ids = c.ids ++ [request.id] := by
      rw [hserve]
      exact List.map_append
    constructor
    · rw [hids]
      exact List.concat_eq_append ▸ List.Nodup.concat hfree h.nodup
    · rw [hids, List.mem_append, List.mem_singleton]
      exact not_or.2 ⟨h.reserved_notMem, hid.symm⟩
  · have hsublist : (c.serve call).2.ids.Sublist c.ids := hdivides.kept_sublist.map _
    exact ⟨h.nodup.sublist hsublist, fun hmem => h.reserved_notMem (hsublist.subset hmem)⟩

variable {start : RequestCache κ}

theorem sound_after (h : start.entries = []) : ∀ calls, (start.after calls).Sound
  | [] => by
    have hids : start.ids = [] := by rw [ids, h, List.map_nil]
    exact ⟨hids ▸ List.nodup_nil, hids ▸ List.not_mem_nil⟩
  | call :: earlier => (sound_after h earlier).serve call

theorem Sound.nodup_handed (h : c.Sound) (call : Call κ) :
    ((c.serve call).1.map (·.1.id)).Nodup := by
  have hnodup := h.nodup.sublist ((c.handed_sublist_entries call).map _)
  rw [List.map_map] at hnodup
  exact hnodup

/-- An id that is handed out is not pending any more. -/
theorem Sound.notMem_of_handed (h : c.Sound) {handed : PendingRequest κ × Exit}
    (hhanded : handed ∈ (c.serve call).1) : handed.1.id ∉ (c.serve call).2.ids := by
  obtain ⟨_, -, -, -, hserve⟩ | ⟨-, hdivides⟩ := c.serve_cases call
  · rw [hserve] at hhanded
    cases hhanded
  · have hnodup : (((c.serve call).1.map (·.1) ++ (c.serve call).2.entries).map (·.id)).Nodup :=
      (hdivides.perm.map _).nodup_iff.2 h.nodup
    rw [List.map_append] at hnodup
    exact List.disjoint_of_nodup_append hnodup
      (List.mem_map_of_mem (List.mem_map_of_mem (f := (·.1)) hhanded))

/-- An id that is pending was not handed out. -/
theorem Sound.notMem_of_pending (h : c.Sound) (hpending : request ∈ (c.serve call).2.entries) :
    request.id ∉ (c.serve call).1.map (·.1.id) := by
  intro hid
  obtain ⟨handed, hhanded, hsame⟩ := List.mem_map.1 hid
  exact h.notMem_of_handed hhanded (hsame ▸ List.mem_map_of_mem hpending)

/-! ## Fates -/

/-- No call hands out a request with an id, of some that come after the earlier ones. -/
def Waits (start : RequestCache κ) (id : RequestId) (earlier : List (Call κ)) :
    List (Call κ) → Prop
  | [] => True
  | call :: between =>
    id ∉ ((start.after (between ++ earlier)).serve call).1.map (·.1.id) ∧
      start.Waits id earlier between

/-- A request is pending after some calls that come after the earlier ones, and none of them has
handed out its id. -/
structure IsKept (start : RequestCache κ) (request : PendingRequest κ)
    (earlier between : List (Call κ)) : Prop where
  waits : start.Waits request.id earlier between
  mem : request ∈ (start.after (between ++ earlier)).entries

/-- A call hands out a request as it was registered, and nothing else under its id. The request was
pending until then and has left. -/
structure HandsOut (start : RequestCache κ) (request : PendingRequest κ)
    (earlier between : List (Call κ)) (call : Call κ) (exit : Exit) : Prop where
  isKept : start.IsKept request earlier between
  letsGo : call.LetsGo request.id exit
  handed_eq : ((start.after (between ++ earlier)).serve call).1.filter (·.1.id = request.id) =
    [(request, exit)]
  notMem : request.id ∉ (start.after (call :: between ++ earlier)).ids

/-- One of some calls that come after the earlier ones has handed out a request. -/
def IsHanded (start : RequestCache κ) (request : PendingRequest κ)
    (earlier calls : List (Call κ)) : Prop :=
  ∃ later call between exit, calls = later ++ call :: between ∧
    start.HandsOut request earlier between call exit

/-- A request stems from a call that registered it, and was not handed out since. -/
def Stems (start : RequestCache κ) (request : PendingRequest κ) (calls : List (Call κ)) : Prop :=
  ∃ between call earlier, calls = between ++ call :: earlier ∧
    (start.after earlier).registered? call = some request ∧
    start.Waits request.id (call :: earlier) between

/-- What is handed out under one id is one request at most. -/
theorem filter_eq_singleton {out : List (PendingRequest κ × Exit)}
    {handed : PendingRequest κ × Exit} (hnodup : (out.map (·.1.id)).Nodup) (h : handed ∈ out) :
    out.filter (·.1.id = handed.1.id) = [handed] := by
  obtain ⟨before, after, rfl⟩ := List.append_of_mem h
  rw [List.map_append, List.map_cons] at hnodup
  have hbefore : ∀ other ∈ before, other.1.id ≠ handed.1.id := fun other hother heq =>
    List.disjoint_of_nodup_append hnodup (List.mem_map_of_mem hother) (heq ▸ List.mem_cons_self)
  have hafter : ∀ other ∈ after, other.1.id ≠ handed.1.id := fun other hother heq =>
    (List.nodup_cons.1 hnodup.of_append_right).1 (heq ▸ List.mem_map_of_mem hother)
  rw [List.filter_append, List.filter_cons_of_pos (by simp),
    List.filter_eq_nil_iff.2 (by simpa using hbefore),
    List.filter_eq_nil_iff.2 (by simpa using hafter), List.nil_append]

/-- The next call hands out a request that is pending, or lets it be. -/
theorem IsKept.next (hstart : start.entries = []) {earlier between : List (Call κ)}
    (h : start.IsKept request earlier between) (call : Call κ) :
    start.IsKept request earlier (call :: between) ∨
      ∃ exit, start.HandsOut request earlier between call exit := by
  have hsound := sound_after hstart (between ++ earlier)
  rcases mem_serve_of_mem call h.mem with hout | hkept
  · obtain ⟨⟨_, exit⟩, hhanded, rfl⟩ := List.mem_map.1 hout
    exact .inr ⟨exit, h, letsGo_of_mem hhanded,
      filter_eq_singleton (hsound.nodup_handed call) hhanded, hsound.notMem_of_handed hhanded⟩
  · exact .inl ⟨⟨hsound.notMem_of_pending hkept, h.waits⟩, hkept⟩

/-- A request that was registered is pending, or has left. -/
theorem isKept_or_isHanded (hstart : start.entries = []) {earlier : List (Call κ)}
    (h : (start.after earlier).registered? call = some request) (later : List (Call κ)) :
    start.IsKept request (call :: earlier) later ∨ start.IsHanded request (call :: earlier) later := by
  induction later with
  | nil => exact .inl ⟨trivial, mem_of_registered h⟩
  | cons next between ih =>
    rcases ih with hkept | ⟨later, last, before, exit, rfl, hout⟩
    · obtain hnext | ⟨exit, hout⟩ := hkept.next hstart next
      · exact .inl hnext
      · exact .inr ⟨[], next, between, exit, rfl, hout⟩
    · exact .inr ⟨next :: later, last, before, exit, rfl, hout⟩

/-- A request that has left is not awaited. -/
theorem IsHanded.not_waits {earlier calls : List (Call κ)}
    (h : start.IsHanded request earlier calls) : ¬ start.Waits request.id earlier calls := by
  obtain ⟨later, call, between, exit, rfl, hout⟩ := h
  intro hwaits
  induction later with
  | nil =>
    have hmem : (request, exit) ∈ ((start.after (between ++ earlier)).serve call).1 := by
      refine List.mem_of_mem_filter (p := (·.1.id = request.id)) ?_
      rw [hout.handed_eq]
      exact List.mem_singleton_self _
    exact hwaits.1 (List.mem_map_of_mem (f := (·.1.id)) hmem)
  | cons _ _ ih => exact ih hwaits.2

/-- What is pending was registered, and was not handed out since. -/
theorem stems_of_mem (hstart : start.entries = []) {calls : List (Call κ)}
    (h : request ∈ (start.after calls).entries) : start.Stems request calls := by
  induction calls with
  | nil =>
    rw [after, hstart] at h
    cases h
  | cons last earlier ih =>
    rcases mem_of_mem_serve h with hmem | hregistered
    · obtain ⟨between, call, before, rfl, hregistered, hwaits⟩ := ih hmem
      exact ⟨last :: between, call, before, rfl, hregistered,
        (sound_after hstart _).notMem_of_pending h, hwaits⟩
    · exact ⟨[], last, earlier, rfl, hregistered, trivial⟩

/-- What a call hands out was registered, and was not handed out since. -/
theorem stems_of_handed (hstart : start.entries = []) {calls : List (Call κ)}
    {handed : PendingRequest κ × Exit} (h : handed ∈ ((start.after calls).serve call).1) :
    start.Stems handed.1 calls :=
  stems_of_mem hstart ((handed_sublist_entries _ call).subset (List.mem_map_of_mem h))

/-! ## Order -/

/-- The requests that some calls registered, in the order of registration. -/
def registrations (start : RequestCache κ) : List (Call κ) → List (PendingRequest κ)
  | [] => []
  | call :: earlier =>
    start.registrations earlier ++ ((start.after earlier).registered? call).toList

/-- What is pending is in the order of registration. -/
theorem entries_sublist (hstart : start.entries = []) (calls : List (Call κ)) :
    (start.after calls).entries.Sublist (start.registrations calls) := by
  induction calls with
  | nil =>
    rw [after, hstart]
    exact List.nil_sublist _
  | cons call earlier ih =>
    rw [after, registrations]
    obtain ⟨request, hregistered, -, -, hserve⟩ | ⟨hnone, hdivides⟩ := serve_cases _ call
    · rw [hserve, hregistered]
      exact ih.append (.refl _)
    · rw [hnone, Option.toList_none, List.append_nil]
      exact hdivides.kept_sublist.trans ih

/-! ## Sweeps -/

/-- When requests that are too old were last searched for, if it was at some time before a call. With
a connection a search that comes too early does not count, and without one none does. -/
def Call.lastRun (interval before : Nat) : Call κ → Nat
  | .sweep now true => if now - before < interval then before else now
  | _ => before

/-- When requests that are too old were last searched for, or else when the cache was made. -/
def lastRun (start : RequestCache κ) : List (Call κ) → Nat
  | [] => start.lastSweep
  | call :: earlier => call.lastRun start.sweepInterval (start.lastRun earlier)

theorem settings_serve (c : RequestCache κ) (call : Call κ) :
    (c.serve call).2.responseTimeout = c.responseTimeout ∧
      (c.serve call).2.sweepInterval = c.sweepInterval ∧
      (c.serve call).2.lastSweep = call.lastRun c.sweepInterval c.lastSweep := by
  cases call with
  | register id completion created =>
    simp only [serve, Call.lastRun]
    cases hregister : c.register id completion created with
    | error e => exact ⟨rfl, rfl, rfl⟩
    | ok c' =>
      obtain ⟨-, -, rfl⟩ := register_eq_ok.1 hregister
      exact ⟨rfl, rfl, rfl⟩
  | take | contains | flush => exact ⟨rfl, rfl, rfl⟩
  | sweep now connected =>
    cases connected with
    | false => exact ⟨rfl, rfl, rfl⟩
    | true =>
      simp only [serve, sweep, Call.lastRun, Bool.not_true, Bool.false_eq_true, if_false]
      split <;> exact ⟨rfl, rfl, rfl⟩

theorem settings_after (start : RequestCache κ) (calls : List (Call κ)) :
    (start.after calls).responseTimeout = start.responseTimeout ∧
      (start.after calls).sweepInterval = start.sweepInterval ∧
      (start.after calls).lastSweep = start.lastRun calls := by
  induction calls with
  | nil => exact ⟨rfl, rfl, rfl⟩
  | cons call earlier ih =>
    obtain ⟨htimeout, hinterval, hlast⟩ := settings_serve (start.after earlier) call
    rw [ih.2.1, ih.2.2] at hlast
    exact ⟨htimeout.trans ih.1, hinterval.trans ih.2.1, hlast⟩

/-! ## All calls -/

/-- What a cache is after some calls that were made of it since it was empty, the last one first. -/
structure Faithful (start : RequestCache κ) (calls : List (Call κ)) : Prop where
  /-- The ids that are pending are distinct, and none is the reserved one. -/
  sound : (start.after calls).Sound
  contains_iff : ∀ id, (start.after calls).contains id = true ↔ id ∈ (start.after calls).ids
  /-- To register fails for the reserved id and for pending ones, and changes nothing then. -/
  register_fails_iff : ∀ id completion created,
    (∃ e, (start.after calls).register id completion created = .error e) ↔
      id = reservedId ∨ id ∈ (start.after calls).ids
  unchanged : ∀ id completion created,
    (∃ e, (start.after calls).register id completion created = .error e) →
      start.after (.register id completion created :: calls) = start.after calls
  /-- A request that was registered either is still pending, or one call has handed it out. -/
  fate : ∀ later call earlier request, calls = later ++ call :: earlier →
    (start.after earlier).registered? call = some request →
      (start.IsKept request (call :: earlier) later ∧
        ¬ start.IsHanded request (call :: earlier) later) ∨
      (start.IsHanded request (call :: earlier) later ∧
        ¬ start.IsKept request (call :: earlier) later)
  /-- Whatever is pending or is handed out next was registered, and was not handed out since. -/
  pending_stems : ∀ request ∈ (start.after calls).entries, start.Stems request calls
  handed_stems : ∀ call, ∀ handed ∈ ((start.after calls).serve call).1, start.Stems handed.1 calls
  /-- With a connection, a sweep too early does nothing, and one in time removes exactly the
  requests that are too old. -/
  sweep_early : ∀ now, now - start.lastRun calls < start.sweepInterval →
    (start.after calls).sweep now true = ([], start.after calls)
  sweep_in_time : ∀ now, start.sweepInterval ≤ now - start.lastRun calls →
    (start.after calls).sweep now true =
      (((start.after calls).entries.filter (start.isOverdue now)).map (·, .timedOut),
        { start.after calls with
          entries := (start.after calls).entries.filter (!start.isOverdue now ·)
          lastSweep := now })
  /-- What is pending and what is handed out at once is in the order of registration. -/
  pending_sublist : (start.after calls).entries.Sublist (start.registrations calls)
  handed_sublist : ∀ call,
    (((start.after calls).serve call).1.map (·.1)).Sublist (start.registrations calls)
  /-- If no request was registered as older than one before it, the oldest comes first. -/
  oldest_first : (start.registrations calls).Pairwise (·.created ≤ ·.created) →
    (start.after calls).entries.Pairwise (·.created ≤ ·.created) ∧
      ∀ call, (((start.after calls).serve call).1.map (·.1)).Pairwise (·.created ≤ ·.created)

theorem register_eq_error_iff :
    (∃ e, c.register id completion created = .error e) ↔ id = reservedId ∨ id ∈ c.ids := by
  rw [← contains_iff]
  unfold register
  split
  · next hid => simp [hid]
  · next hid =>
    split
    · next hpending => simp [hpending]
    · next hfree => simp [hid, hfree]

theorem isOverdue_after (start : RequestCache κ) (calls : List (Call κ)) (now : Nat) :
    (start.after calls).isOverdue now = start.isOverdue now := by
  funext request
  rw [isOverdue, isOverdue, (settings_after start calls).1]

theorem faithful_of_empty (hstart : start.entries = []) (calls : List (Call κ)) :
    start.Faithful calls where
  sound := sound_after hstart calls
  contains_iff _ := contains_iff
  register_fails_iff _ _ _ := register_eq_error_iff
  unchanged id completion created := by
    rintro ⟨e, hregister⟩
    simp only [after, serve, hregister]
    rfl
  fate := by
    rintro later call earlier request rfl hregistered
    exact (isKept_or_isHanded hstart hregistered later).imp
      (fun hkept => ⟨hkept, fun hhanded => hhanded.not_waits hkept.waits⟩)
      fun hhanded => ⟨hhanded, fun hkept => hhanded.not_waits hkept.waits⟩
  pending_stems _ := stems_of_mem hstart
  handed_stems _ _ := stems_of_handed hstart
  sweep_early now hnow := by
    obtain ⟨-, hinterval, hlast⟩ := settings_after start calls
    rw [sweep, if_neg (by decide), hinterval, hlast, if_pos hnow]
  sweep_in_time now hnow := by
    obtain ⟨-, hinterval, hlast⟩ := settings_after start calls
    have hdue : ¬ now - (start.after calls).lastSweep < (start.after calls).sweepInterval := by
      rw [hinterval, hlast]
      exact Nat.not_lt.2 hnow
    rw [sweep, if_neg (by decide), if_neg hdue, isOverdue_after]
  pending_sublist := entries_sublist hstart calls
  handed_sublist call := (handed_sublist_entries _ call).trans (entries_sublist hstart calls)
  oldest_first h := by
    have hpending := h.sublist (entries_sublist hstart calls)
    exact ⟨hpending, fun call => hpending.sublist (handed_sublist_entries _ call)⟩

/-- A cache is a finite map that loses nothing and hands nothing out twice, whatever is called for. -/
theorem faithful (responseTimeout sweepInterval made : Nat) (calls : List (Call κ)) :
    (new responseTimeout sweepInterval made).Faithful calls :=
  faithful_of_empty rfl calls

end Vdc.RequestCache
