import Vdc.Proofs.RequestCache

/-!
# How old a pending request gets

A sweep that comes too early after the last one is skipped, so a request may stay pending beyond the
response timeout. `boundsAges` says how far: as long as the clock never goes back, no sweep with a
connection leaves a request that is older than the timeout by the sweep interval or more, and none
hands out a request before its time.

What the calls keep is `Young`: at the last sweep that was not skipped, no request that is still
pending was older than the timeout. A skipped sweep and one without a connection do not count as the
last one, and what is registered later is younger still. The next sweep is skipped only within one
interval of the last, which is what can be added to the timeout.
-/

namespace Vdc.RequestCache

variable {κ : Type}

/-! ## The clock -/

/-- The time that a call is given, if it is given one. -/
def Call.time? : Call κ → Option Nat
  | .register _ _ created => some created
  | .sweep now _ => some now
  | .take _ | .contains _ | .flush => none

/-- The time after some calls, the last one first, that began when the cache was made. -/
def clock (made : Nat) : List (Call κ) → Nat
  | [] => made
  | call :: earlier => call.time?.getD (clock made earlier)

/-- Every call is given the time at which it is made, and the clock never goes back. -/
def OnTime (made : Nat) : List (Call κ) → Prop
  | [] => True
  | call :: earlier => OnTime made earlier ∧ ∀ now ∈ call.time?, clock made earlier ≤ now

theorem OnTime.of_append {made : Nat} {later earlier : List (Call κ)}
    (h : OnTime made (later ++ earlier)) : OnTime made earlier := by
  induction later with
  | nil => exact h
  | cons _ _ ih => exact ih h.1

/-! ## What every call keeps -/

/-- Nothing that is pending, and no sweep, is later than a time, and no request was too old at the
last sweep. -/
structure Young (c : RequestCache κ) (time : Nat) : Prop where
  lastSweep_le : c.lastSweep ≤ time
  created_le : ∀ request ∈ c.entries, request.created ≤ time
  lastSweep_le_add : ∀ request ∈ c.entries, c.lastSweep ≤ request.created + c.responseTimeout

variable {c : RequestCache κ} {time now : Nat} {request : PendingRequest κ}

/-- Requests may leave, and time may pass. -/
theorem Young.of_subset (h : c.Young time) {c' : RequestCache κ} {later : Nat}
    (htime : time ≤ later) (hentries : c'.entries ⊆ c.entries)
    (htimeout : c'.responseTimeout = c.responseTimeout) (hlast : c'.lastSweep = c.lastSweep) :
    c'.Young later where
  lastSweep_le := hlast ▸ Nat.le_trans h.lastSweep_le htime
  created_le request hrequest := Nat.le_trans (h.created_le request (hentries hrequest)) htime
  lastSweep_le_add request hrequest := by
    rw [hlast, htimeout]
    exact h.lastSweep_le_add request (hentries hrequest)

/-- A request that was registered when it was made is young. -/
theorem Young.register (h : c.Young time) (id : RequestId) (completion : κ)
    (hnow : time ≤ now) : (c.serve (.register id completion now)).2.Young now := by
  obtain ⟨htimeout, -, hlast⟩ := settings_serve c (.register id completion now)
  have hsweep : c.lastSweep ≤ now := Nat.le_trans h.lastSweep_le hnow
  have hmem : ∀ request ∈ (c.serve (.register id completion now)).2.entries,
      request ∈ c.entries ∨ request.created = now := by
    intro request hrequest
    refine (mem_of_mem_serve hrequest).imp_right fun hregistered => ?_
    simp only [registered?, Option.ite_none_right_eq_some, Option.some.injEq] at hregistered
    exact congrArg PendingRequest.created hregistered.2.symm
  refine ⟨hlast ▸ hsweep, fun request hrequest => ?_, fun request hrequest => ?_⟩
  · rcases hmem request hrequest with hold | hnew
    · exact Nat.le_trans (h.created_le request hold) hnow
    · exact Nat.le_of_eq hnew
  · rw [hlast, htimeout]
    change c.lastSweep ≤ request.created + c.responseTimeout
    rcases hmem request hrequest with hold | hnew
    · exact h.lastSweep_le_add request hold
    · omega

/-- A sweep with a connection is skipped within an interval of the last one, and otherwise leaves no
request that is too old. -/
theorem sweep_cases (c : RequestCache κ) (now : Nat) :
    (now < c.lastSweep + c.sweepInterval ∧ c.sweep now true = ([], c)) ∨
      (c.sweep now true).2.lastSweep = now ∧
        ∀ request ∈ (c.sweep now true).2.entries,
          request ∈ c.entries ∧ now ≤ request.created + c.responseTimeout := by
  simp only [sweep, Bool.not_true, Bool.false_eq_true, if_false]
  split
  · next hearly => exact .inl ⟨by omega, rfl⟩
  · refine .inr ⟨rfl, fun request hrequest => ?_⟩
    obtain ⟨hmem, hkept⟩ := List.mem_filter.1 hrequest
    simp only [isOverdue, Bool.not_eq_true', decide_eq_false_iff_not] at hkept
    exact ⟨hmem, by omega⟩

theorem Young.sweep (h : c.Young time) (hnow : time ≤ now) :
    (c.serve (.sweep now true)).2.Young now := by
  obtain ⟨htimeout, -, -⟩ := settings_serve c (.sweep now true)
  obtain ⟨-, hskipped⟩ | ⟨hlast, hkept⟩ := c.sweep_cases now
  · simp only [RequestCache.serve, hskipped]
    exact h.of_subset hnow (List.Subset.refl _) rfl rfl
  · refine ⟨Nat.le_of_eq hlast, fun request hrequest => ?_, fun request hrequest => ?_⟩
    · exact Nat.le_trans (h.created_le request (hkept request hrequest).1) hnow
    · rw [htimeout]
      exact Nat.le_trans (Nat.le_of_eq hlast) (hkept request hrequest).2

/-- Whatever is called for at the time it is, no request was too old at the last sweep. -/
theorem Young.serve (h : c.Young time) {call : Call κ} (hcall : ∀ now ∈ call.time?, time ≤ now) :
    (c.serve call).2.Young (call.time?.getD time) := by
  cases call with
  | register id completion created => exact h.register id completion (hcall created rfl)
  | take id => exact h.of_subset (Nat.le_refl _) List.eraseP_subset rfl rfl
  | contains id => exact h
  | flush => exact h.of_subset (Nat.le_refl _) (List.nil_subset _) rfl rfl
  | sweep now connected =>
    cases connected with
    | true => exact h.sweep (hcall now rfl)
    | false => exact h.of_subset (hcall now rfl) (List.nil_subset _) rfl rfl

theorem young_after (responseTimeout sweepInterval : Nat) {made : Nat} {calls : List (Call κ)}
    (h : OnTime made calls) :
    ((new responseTimeout sweepInterval made).after calls).Young (clock made calls) := by
  induction calls with
  | nil => exact ⟨Nat.le_refl _, List.forall_mem_nil _, List.forall_mem_nil _⟩
  | cons call earlier ih => exact (ih h.1).serve h.2

/-! ## The bound -/

/-- What a sweep with a connection leaves is less than an interval beyond the timeout, or not beyond
it at all. -/
theorem Young.age_of_sweep (h : c.Young time) (hnow : time ≤ now)
    (hrequest : request ∈ (c.serve (.sweep now true)).2.entries) :
    request.created ≤ now ∧ (now - request.created ≤ c.responseTimeout ∨
      now - request.created < c.responseTimeout + c.sweepInterval) := by
  refine ⟨(h.sweep hnow).created_le request hrequest, ?_⟩
  obtain ⟨hearly, hskipped⟩ | ⟨-, hkept⟩ := c.sweep_cases now
  · -- The request was young at the last sweep, and since then less than an interval has passed.
    simp only [RequestCache.serve, hskipped] at hrequest
    have hlast := h.lastSweep_le_add request hrequest
    omega
  · have hyoung := (hkept request hrequest).2
    omega

/-- Only a sweep with a connection lets a request time out, and only if it is too old. -/
theorem overdue_of_timedOut {call : Call κ}
    (h : (request, Exit.expired .timedOut) ∈ (c.serve call).1) :
    ∃ now, call = .sweep now true ∧ c.responseTimeout < now - request.created := by
  have hcall := letsGo_of_mem h
  cases hcall with
  | timedOut now id =>
    obtain ⟨expired, hexpired, -, hold⟩ := c.sweep_spec now fun h : true = false => nomatch h
    simp only [serve, hexpired, List.map_map, List.mem_map, Function.comp_apply,
      Prod.mk.injEq] at h
    obtain ⟨_, hmem, rfl, -⟩ := h
    exact ⟨now, rfl, hold _ hmem⟩

/-- How old requests get in the course of some calls, the last one first. -/
structure BoundsAges (start : RequestCache κ) (calls : List (Call κ)) : Prop where
  /-- Whatever is pending after a sweep with a connection is not too old, or not by an interval. -/
  pending : ∀ later now earlier, calls = later ++ .sweep now true :: earlier →
    ∀ request ∈ (start.after (.sweep now true :: earlier)).entries,
      request.created ≤ now ∧ (now - request.created ≤ start.responseTimeout ∨
        now - request.created < start.responseTimeout + start.sweepInterval)
  /-- So a request that has got older than that is handed out by the sweep. -/
  none_outlives : ∀ later now earlier, calls = later ++ .sweep now true :: earlier →
    ∀ request ∈ (start.after earlier).entries,
      start.responseTimeout < now - request.created →
      start.responseTimeout + start.sweepInterval ≤ now - request.created →
      (request, .expired .timedOut) ∈ ((start.after earlier).serve (.sweep now true)).1
  /-- A request times out only when its age is strictly above the timeout. -/
  timedOut : ∀ later call earlier, calls = later ++ call :: earlier →
    ∀ request, (request, .expired .timedOut) ∈ ((start.after earlier).serve call).1 →
      ∃ now, call = .sweep now true ∧ start.responseTimeout < now - request.created

/-- No sweep on a clock that never goes back leaves a request that is an interval or more beyond the
timeout, and none lets a request time out too early. -/
theorem boundsAges (responseTimeout sweepInterval : Nat) {made : Nat} {calls : List (Call κ)}
    (h : OnTime made calls) : (new responseTimeout sweepInterval made).BoundsAges calls := by
  have hpending : ∀ later now earlier, calls = later ++ .sweep now true :: earlier →
      ∀ request ∈ ((new responseTimeout sweepInterval made).after
        (.sweep now true :: earlier)).entries,
      request.created ≤ now ∧ (now - request.created ≤ responseTimeout ∨
        now - request.created < responseTimeout + sweepInterval) := by
    rintro later now earlier rfl request hrequest
    obtain ⟨hearlier, hnow⟩ := h.of_append
    have hyoung := young_after responseTimeout sweepInterval hearlier
    have hage := hyoung.age_of_sweep (hnow now rfl) hrequest
    obtain ⟨htimeout, hinterval, -⟩ :=
      settings_after (new responseTimeout sweepInterval made) earlier
    rwa [htimeout, hinterval] at hage
  refine ⟨hpending, ?_, ?_⟩
  · intro later now earlier hcalls request hrequest htimeout hinterval
    rcases mem_serve_of_mem (.sweep now true) hrequest with hout | hkept
    · obtain ⟨⟨_, exit⟩, hhanded, rfl⟩ := List.mem_map.1 hout
      cases letsGo_of_mem hhanded
      exact hhanded
    · obtain ⟨-, hyoung | hyoung⟩ := hpending later now earlier hcalls request hkept
      · exact absurd htimeout (Nat.not_lt.2 hyoung)
      · exact absurd hinterval (Nat.not_le.2 hyoung)
  · rintro later call earlier rfl request hout
    obtain ⟨now, rfl, hage⟩ := overdue_of_timedOut hout
    rw [(settings_after _ earlier).1] at hage
    exact ⟨now, rfl, hage⟩

/-- A request that is as old as the timeout at one sweep is still pending at the next, which is
skipped at the last moment of the interval. -/
theorem boundsAges_skipped :
    let calls : List (Call Unit) := [.sweep 49 true, .sweep 30 true, .register 1 () 20]
    OnTime 0 calls ∧ (new 10 20 0).BoundsAges calls ∧
      ((new 10 20 0).after calls).entries = [⟨1, 20, ()⟩] ∧ 49 - 20 + 1 = 10 + 20 := by
  intro calls
  have htime : OnTime 0 calls := by
    simp [calls, OnTime, clock, Call.time?]
  exact ⟨htime, boundsAges 10 20 htime, rfl, rfl⟩

end Vdc.RequestCache
