import Mathlib.Data.Finset.Card
import Vdc.Endpoint
import Vdc.Proofs.Number.Integer

/-!
# The search for a free service name

A name gives way to its alternative, and that to its own, until one is free. The chain of
alternatives is known in closed form: after the first step it has one base and counts up
(`iterate_alternative`), so no name comes twice until the numbers end at `maxNumber`, and from there
on the chain stands still (`alternative_eq_self_iff`).

The search looks at one name more than are taken. If it finds none free, two of these names are the
same, and then the whole chain is among them: nothing is lost by the bound (`freeName?_eq_none_iff`).
An announcement therefore either publishes the first free name of the chain, or every name up to the
one with the last number is taken and there is none.
-/

namespace Vdc

namespace ServiceName

/-! ## Numbered names -/

/-- A name with a number. -/
def withNumber (base : String) (n : Nat) : String := s!"{base} #{n}"

theorem toList_withNumber (base : String) (n : Nat) :
    (withNumber base n).toList = base.toList ++ ' ' :: '#' :: (toString n).toList := by
  have htext : withNumber base n = base ++ " #" ++ toString n := rfl
  rw [htext, String.toList_append, String.toList_append, List.append_assoc]
  rfl

theorem splitLast?_eq_none {text : List Char} (h : ' ' ∉ text) : splitLast? text = none := by
  induction text with
  | nil => rfl
  | cons c rest ih =>
    simp only [splitLast?, ih (List.not_mem_of_not_mem_cons h)]
    cases rest with
    | nil => rfl
    | cons d after => exact if_neg fun hmark => List.ne_of_not_mem_cons h hmark.1.symm

/-- A text is split at a mark that no blank comes after. -/
theorem splitLast?_append (before : List Char) {after : List Char} (h : ' ' ∉ after) :
    splitLast? (before ++ ' ' :: '#' :: after) = some (before, after) := by
  induction before with
  | nil =>
    have hnone : splitLast? ('#' :: after) = none := by
      refine splitLast?_eq_none (List.not_mem_cons_of_ne_of_not_mem ?_ h)
      decide
    rw [List.nil_append, splitLast?, hnone]
    rfl
  | cons c rest ih => simp only [List.cons_append, splitLast?, ih]

/-- A number is read back from the name it was put in. -/
theorem numbered?_withNumber (base : String) {n : Nat} (hpos : 1 ≤ n) (hmax : n ≤ maxNumber) :
    numbered? (withNumber base n) = some (base, n) := by
  have hblank : ' ' ∉ (toString n).toList := by
    intro hmem
    rw [Nat.toString_eq_repr, Nat.toList_repr] at hmem
    exact absurd (Nat.isDigit_of_mem_toDigits (by decide) (by decide) hmem) (by decide)
  have hread := natOfText?_toString hmax
  rw [numbered?, toList_withNumber, splitLast?_append _ hblank]
  simp only [Option.bind_eq_bind, Option.bind_some, String.ofList_toList, hread, Except.toOption,
    if_pos hpos]
  rfl

/-! ## The chain of alternatives -/

theorem alternative_withNumber (base : String) {n : Nat} (hpos : 1 ≤ n) (hmax : n ≤ maxNumber) :
    alternative (withNumber base n) = withNumber base (min (n + 1) maxNumber) := by
  rw [alternative, numbered?_withNumber base hpos hmax]
  rfl

/-- Whatever a name is, its alternative has a number. -/
theorem exists_alternative_eq (name : String) :
    ∃ base n, 1 ≤ n ∧ n ≤ maxNumber ∧ alternative name = withNumber base n := by
  unfold alternative
  split
  · next base n hnumbered =>
    refine ⟨base, min (n + 1) maxNumber, ?_, Nat.min_le_right .., rfl⟩
    exact Nat.le_min.2 ⟨Nat.le_add_left .., by decide⟩
  · refine ⟨name, 2, by decide, by decide, ?_⟩
    show name ++ " #2" = name ++ " #" ++ "2"
    rw [String.append_assoc]
    rfl

/-- From a name with a number the chain counts up, as far as the numbers go. -/
theorem iterate_alternative (base : String) {n : Nat} (hpos : 1 ≤ n) (hmax : n ≤ maxNumber)
    (k : Nat) : alternative^[k] (withNumber base n) = withNumber base (min (n + k) maxNumber) := by
  induction k with
  | zero => rw [Function.iterate_zero_apply, Nat.add_zero, Nat.min_eq_left hmax]
  | succ k ih =>
    rw [Function.iterate_succ_apply', ih, alternative_withNumber base (by omega) (by omega)]
    congr 1
    omega

/-- Every chain comes to the last number. -/
theorem exists_iterate_eq_last (name : String) :
    ∃ base k, alternative^[k] name = withNumber base maxNumber := by
  obtain ⟨base, n, hpos, hmax, hnext⟩ := exists_alternative_eq name
  refine ⟨base, maxNumber - n + 1, ?_⟩
  rw [Function.iterate_succ_apply, hnext, iterate_alternative base hpos hmax]
  congr 1
  omega

/-- A name is its own alternative exactly if its number is the last one. -/
theorem alternative_eq_self_iff {name : String} :
    alternative name = name ↔ ∃ base, name = withNumber base maxNumber := by
  constructor
  · intro hself
    -- The number of a name that is its own alternative is its own successor.
    obtain ⟨base, n, hpos, hmax, hnext⟩ := exists_alternative_eq name
    have hsame : withNumber base (min (n + 1) maxNumber) = withNumber base n := by
      rw [← alternative_withNumber base hpos hmax, ← hnext, hself, hself]
    have hnumbers := numbered?_withNumber base (n := min (n + 1) maxNumber) (by omega) (by omega)
    rw [hsame, numbered?_withNumber base hpos hmax] at hnumbers
    have hlast : n = min (n + 1) maxNumber := congrArg Prod.snd (Option.some.inj hnumbers)
    have hn : n = maxNumber := by omega
    exact ⟨base, by rw [← hself, hnext, hn]⟩
  · rintro ⟨base, rfl⟩
    exact alternative_withNumber base (by decide) (Nat.le_refl _)

/-! ## Free names -/

/-- The first name of a chain that is not taken. -/
def IsFirstFree (taken : List String) (name free : String) : Prop :=
  ∃ k, alternative^[k] name = free ∧ free ∉ taken ∧ ∀ j < k, alternative^[j] name ∈ taken

theorem IsFirstFree.unique {taken : List String} {name free free' : String}
    (h : IsFirstFree taken name free) (h' : IsFirstFree taken name free') : free = free' := by
  obtain ⟨k, rfl, hfree, hbefore⟩ := h
  obtain ⟨k', rfl, hfree', hbefore'⟩ := h'
  rcases Nat.lt_trichotomy k k' with hlt | rfl | hgt
  · exact absurd (hbefore' k hlt) hfree
  · rfl
  · exact absurd (hbefore k' hgt) hfree'

/-- If a function does not leave a list within as many steps as the list is long, it never does. -/
theorem iterate_mem_of_le {α : Type} [DecidableEq α] {f : α → α} {x : α} {list : List α}
    (h : ∀ k ≤ list.length, f^[k] x ∈ list) (k : Nat) : f^[k] x ∈ list := by
  -- One value more than there is room for: some value comes twice, and then again and again.
  have hroom : list.toFinset.card < (Finset.range (list.length + 1)).card := by
    rw [Finset.card_range]
    exact Nat.lt_succ_of_le list.toFinset_card_le
  obtain ⟨i, hi, j, hj, hij, hsame⟩ :=
    Finset.exists_ne_map_eq_of_card_lt_of_maps_to hroom (f := fun k => f^[k] x) (by
      intro k hk
      have hk : k < list.length + 1 := by simpa using hk
      simpa using h k (by omega))
  have hrepeat : ∃ i j, i < j ∧ j ≤ list.length ∧ f^[j] x = f^[i] x := by
    rw [Finset.mem_range] at hi hj
    rcases Nat.lt_or_gt_of_ne hij with hlt | hgt
    · exact ⟨i, j, hlt, by omega, hsame.symm⟩
    · exact ⟨j, i, hgt, by omega, hsame⟩
  obtain ⟨i, j, hlt, hle, hsame⟩ := hrepeat
  induction k using Nat.strongRecOn with
  | ind k ih =>
    rcases Nat.lt_or_ge list.length k with hlate | hearly
    · have hback : f^[k] x = f^[k - j + i] x := by
        rw [Function.iterate_add_apply, ← hsame, ← Function.iterate_add_apply]
        congr 2
        omega
      rw [hback]
      exact ih _ (by omega)
    · exact h k hearly

theorem freeWithin?_eq_none_iff {taken : List String} {steps : Nat} {name : String} :
    freeWithin? taken steps name = none ↔ ∀ k < steps, alternative^[k] name ∈ taken := by
  induction steps generalizing name with
  | zero => simp [freeWithin?]
  | succ steps ih =>
    rw [Nat.forall_lt_succ_left]
    by_cases htaken : name ∈ taken
    · simp [freeWithin?, htaken, ih]
    · simp [freeWithin?, htaken]

theorem isFirstFree_of_freeWithin? {taken : List String} {steps : Nat} {name free : String}
    (h : freeWithin? taken steps name = some free) : IsFirstFree taken name free := by
  induction steps generalizing name with
  | zero => cases h
  | succ steps ih =>
    by_cases htaken : name ∈ taken
    · have hrest : freeWithin? taken steps (alternative name) = some free := by
        simpa [freeWithin?, htaken] using h
      obtain ⟨k, hk, hfree, hbefore⟩ := ih hrest
      exact ⟨k + 1, hk, hfree, Nat.forall_lt_succ_left.2 ⟨htaken, hbefore⟩⟩
    · have hname : name = free := by simpa [freeWithin?, htaken] using h
      exact ⟨0, hname, hname ▸ htaken, by simp⟩

/-- The search fails exactly if the whole chain is taken. -/
theorem freeName?_eq_none_iff {taken : List String} {name : String} :
    freeName? taken name = none ↔ ∀ k, alternative^[k] name ∈ taken := by
  rw [freeName?, freeWithin?_eq_none_iff]
  exact ⟨fun h => iterate_mem_of_le fun k hk => h k (by omega), fun h k _ => h k⟩

/-- The search finds the first free name of the chain. -/
theorem freeName?_eq_some_iff {taken : List String} {name free : String} :
    freeName? taken name = some free ↔ IsFirstFree taken name free := by
  refine ⟨isFirstFree_of_freeWithin?, fun h => ?_⟩
  cases hfound : freeName? taken name with
  | none =>
    obtain ⟨k, rfl, hfree, -⟩ := h
    exact absurd (freeName?_eq_none_iff.1 hfound k) hfree
  | some free' => rw [h.unique (isFirstFree_of_freeWithin? hfound)]

/-- The whole chain is taken exactly if it is up to the name with the last number. -/
theorem forall_iterate_mem_iff {taken : List String} {name : String} :
    (∀ k, alternative^[k] name ∈ taken) ↔
      ∃ base k, alternative^[k] name = withNumber base maxNumber ∧
        ∀ j ≤ k, alternative^[j] name ∈ taken := by
  constructor
  · intro h
    obtain ⟨base, k, hlast⟩ := exists_iterate_eq_last name
    exact ⟨base, k, hlast, fun j _ => h j⟩
  · rintro ⟨base, k, hlast, hbefore⟩ j
    rcases Nat.le_total j k with hle | hge
    · exact hbefore j hle
    · have hstill : alternative^[j] name = alternative^[k] name := by
        rw [← Nat.sub_add_cancel hge, Function.iterate_add_apply, hlast]
        exact Function.iterate_fixed (alternative_eq_self_iff.2 ⟨base, rfl⟩) _
      rw [hstill]
      exact hbefore k (Nat.le_refl k)

end ServiceName

namespace Announcer

open ServiceName

/-- What comes of announcing a service under a name that others may have taken. -/
structure PublishesFirstFree (a : Announcer) (service : Service) : Prop where
  /-- The record that is published has the first free name of the chain, and the port and the dSUID
  of the service. -/
  published_iff : ∀ a', a.start service = .published a' ↔ service.name ≠ "" ∧
    ∃ free, IsFirstFree a.taken service.name free ∧ a' = { a with
      record := some ⟨free, ServiceRecord.vdcType, service.port, ["dSUID=" ++ service.dsuid]⟩ }
  /-- Only a service without a name is refused. -/
  refused_iff : ∀ error, a.start service = .refused error ↔
    service.name = "" ∧ error = .parameter .emptyServiceName
  /-- An endpoint whose service is refused keeps the record that there was. -/
  kept : ∀ error, a.start service = .refused error →
    ∀ {σ : Type} (app : Application σ) (memory : σ) (config : Config) (e : Endpoint σ),
      config.name = service.name →
      Endpoint.start app memory service.dsuid config (some a) service.port = .ready e →
        e.record? = a.record
  /-- The search does not end exactly if the chain is taken up to the last number. -/
  endless_iff : a.start service = .endless ↔ service.name ≠ "" ∧
    ∃ base k, alternative^[k] service.name = withNumber base maxNumber ∧
      ∀ j ≤ k, alternative^[j] service.name ∈ a.taken
  /-- It does end, with a free name, if nobody has a name with the last number. -/
  ends : (∀ base, withNumber base maxNumber ∉ a.taken) → service.name ≠ "" →
    ∃ a', a.start service = .published a'
  /-- No name but those with the last number is its own alternative. -/
  self_iff : ∀ name, alternative name = name ↔ ∃ base, name = withNumber base maxNumber

/-- The three things that can come of an announcement. -/
theorem start_cases (a : Announcer) (service : Service) :
    (service.name = "" ∧ a.start service = .refused (.parameter .emptyServiceName)) ∨
      service.name ≠ "" ∧
        ((∃ free, freeName? a.taken service.name = some free ∧ a.start service = .published { a with
            record := some ⟨free, ServiceRecord.vdcType, service.port,
              ["dSUID=" ++ service.dsuid]⟩ }) ∨
          freeName? a.taken service.name = none ∧ a.start service = .endless) := by
  unfold start
  by_cases hname : service.name = ""
  · exact .inl ⟨hname, by simp [hname]⟩
  · refine .inr ⟨hname, ?_⟩
    rw [if_neg (by simpa using hname)]
    cases freeName? a.taken service.name with
    | none => exact .inr ⟨rfl, rfl⟩
    | some free => exact .inl ⟨free, rfl, rfl⟩

/-- Whatever names are taken, an announcement publishes the first free name of the chain, unless
there is none. -/
theorem publishesFirstFree_start (a : Announcer) (service : Service) :
    a.PublishesFirstFree service := by
  refine ⟨fun a' => ?_, fun error => ?_, fun error hrefused σ app memory config e hname hready => ?_,
    ?_, fun hlast hname => ?_, fun name => alternative_eq_self_iff⟩
  · rcases a.start_cases service with
      ⟨hname, hstart⟩ | ⟨hname, ⟨free, hfree, hstart⟩ | ⟨hnone, hstart⟩⟩
    · simp [hstart, hname]
    · rw [hstart, Started.published.injEq]
      constructor
      · rintro rfl
        exact ⟨hname, free, freeName?_eq_some_iff.1 hfree, rfl⟩
      · rintro ⟨-, free', hfree', rfl⟩
        rw [(freeName?_eq_some_iff.1 hfree).unique hfree']
    · rw [hstart]
      refine ⟨nofun, ?_⟩
      rintro ⟨-, free, hfree, -⟩
      rw [freeName?_eq_some_iff.2 hfree] at hnone
      cases hnone
  · rcases a.start_cases service with
      ⟨hname, hstart⟩ | ⟨hname, ⟨free, -, hstart⟩ | ⟨-, hstart⟩⟩
    · simp [hstart, hname, eq_comm]
    · simp [hstart, hname]
    · simp [hstart, hname]
  · have hservice : (⟨config.name, service.dsuid, service.port⟩ : Service) = service := by
      rw [hname]
    unfold Endpoint.start at hready
    simp only [hservice, hrefused] at hready
    split at hready
    · cases hready
    · cases hready
      rfl
  · rw [← forall_iterate_mem_iff, ← freeName?_eq_none_iff]
    rcases a.start_cases service with
      ⟨hname, hstart⟩ | ⟨hname, ⟨free, hfree, hstart⟩ | ⟨hnone, hstart⟩⟩
    · simp [hstart, hname]
    · simp [hstart, hfree]
    · simp [hstart, hname, hnone]
  · rcases a.start_cases service with
      ⟨hempty, -⟩ | ⟨-, ⟨free, -, hstart⟩ | ⟨hnone, -⟩⟩
    · exact absurd hempty hname
    · exact ⟨_, hstart⟩
    · obtain ⟨base, k, hk, hbefore⟩ := forall_iterate_mem_iff.1 (freeName?_eq_none_iff.1 hnone)
      exact absurd (hk ▸ hbefore k (Nat.le_refl k)) (hlast base)

/-- A name with the last number that is taken leaves nothing to publish. -/
theorem start_of_last (record : Option ServiceRecord) (base dsuid : String) (port : UInt16) :
    start ⟨[withNumber base maxNumber], record⟩ ⟨withNumber base maxNumber, dsuid, port⟩ =
      .endless := by
  have hself : alternative (withNumber base maxNumber) = withNumber base maxNumber :=
    alternative_eq_self_iff.2 ⟨base, rfl⟩
  have hname : withNumber base maxNumber ≠ "" := by
    intro hempty
    have hlist := congrArg String.toList hempty
    rw [toList_withNumber] at hlist
    simp at hlist
  have hnone : freeName? [withNumber base maxNumber] (withNumber base maxNumber) = none := by
    rw [freeName?_eq_none_iff]
    intro k
    rw [Function.iterate_fixed hself]
    exact List.mem_cons_self
  rw [start, if_neg (by simpa using hname), hnone]

/-- The name `lamp #4294967295` is its own alternative, and where it is taken it is not announced
under another name. -/
theorem not_publishes_last :
    alternative "lamp #4294967295" = "lamp #4294967295" ∧
      start ⟨["lamp #4294967295"], none⟩ ⟨"lamp #4294967295", "D1", 49500⟩ = .endless ∧
      ∀ k, alternative^[k] "lamp #4294967295" ∈ ["lamp #4294967295"] := by
  have hname : "lamp #4294967295" = withNumber "lamp" maxNumber := rfl
  have hself : alternative "lamp #4294967295" = "lamp #4294967295" :=
    alternative_eq_self_iff.2 ⟨"lamp", hname⟩
  refine ⟨hself, ?_, fun k => ?_⟩
  · rw [hname]
    exact start_of_last none "lamp" "D1" 49500
  · rw [Function.iterate_fixed hself]
    exact List.mem_cons_self

end Announcer

end Vdc
