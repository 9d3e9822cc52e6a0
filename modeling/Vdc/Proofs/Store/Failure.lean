import Vdc.Proofs.Store.Reopening
import Vdc.Store.Draft

/-!
# Saves that fail

A save that fails changes nothing: neither the store nor anything in the folder, and no draft is
left behind. So it makes no difference to later saves that it was attempted, as `noTrace` says of
every sequence of saves, between which others may change the folder as they like.

This rests on two things. A draft is made where nothing stood, so to remove it is to undo everything
that was done with it (`Folder.remove_put`). And the store changes only after its file has.

The steps of a save come to what `Store.save` does at once: `Store.commit_cases`.
-/

namespace Vdc

namespace Folder

variable {f : Folder} {place : Place} {entry : FileEntry}

/-! ## Drafts come and go -/

theorem filter_entries_of_free (h : f.find? place = none) :
    f.entries.filter (·.1 != place) = f.entries := by
  rw [find?] at h
  split at h
  · cases h
  · rw [Option.map_eq_none_iff, List.find?_eq_none] at h
    refine List.filter_eq_self.2 fun e he => ?_
    simpa using h e he

/-- What was put where nothing stood can be removed without a trace. -/
theorem remove_put (h : f.find? place = none) : (f.put place entry).remove place = f := by
  have hentries : (f.put place entry).entries.filter (·.1 != place) = f.entries := by
    rw [put, List.filter_cons_of_neg (by simp), filter_entries_of_free h,
      filter_entries_of_free h]
  rw [remove, hentries]
  rfl

theorem put_put (first : FileEntry) : (f.put place first).put place entry = f.put place entry := by
  have hentries : (f.put place first).entries.filter (·.1 != place) =
      f.entries.filter (·.1 != place) := by
    rw [put, List.filter_cons_of_neg (by simp), List.filter_filter]
    simp only [Bool.and_self]
  rw [put, hentries]
  rfl

theorem find?_put_of_free (h : f.find? place = none) :
    (f.put place entry).find? place = some entry :=
  find?_put_self (by rw [h]; exact nofun)

end Folder

/-! ## Drafts of a disk -/

namespace Drafts

open Folder

theorem lawful_within (room : Nat) (names : List String) : (within room names).Lawful where
  create_error h := by
    simp only [within] at h
    split at h <;> cases h
    rfl
  create_ok h := by
    simp only [within] at h
    split at h
    · next name hfree =>
      cases h
      exact ⟨by simpa using List.find?_some hfree, rfl⟩
    · cases h
  write_error {_ _ _ content _} _ h := by
    simp only [within] at h
    split at h <;> cases h
    exact ⟨content.take room, List.take_prefix room content, rfl⟩
  write_ok _ h := by
    simp only [within] at h
    split at h <;> cases h
    rfl
  sync_eq _ _ := rfl
  persist_error h := by
    simp only [within] at h
    split at h
    · split at h <;> cases h
      rfl
    · cases h
      rfl
  persist_ok hdraft h := by
    simp only [within, hdraft] at h
    split at h
    · next hmoved =>
      cases h
      exact hmoved
    · cases h
  discard_eq _ := rfl

variable {drafts : Drafts}

/-- A draft that has just been made either is moved with the new content, or it is still there with
some content. -/
theorem Lawful.deliver_cases (h : drafts.Lawful) {f : Folder} {draft : Place}
    (hfree : f.find? draft = none) (content : List UInt8) (path : Path) :
    (∃ fault written, drafts.deliver (f.put draft (.file [])) draft content path =
      (.error fault, f.put draft (.file written))) ∨
    ∃ f', drafts.deliver (f.put draft (.file [])) draft content path = (.ok (), f') ∧
      f.moveOver path content = .ok f' := by
  have hmade : (f.put draft (.file [])).find? draft = some (.file []) := find?_put_of_free hfree
  unfold deliver
  split
  · next fault f₁ hwrite =>
    obtain ⟨written, -, rfl⟩ := h.write_error hmade hwrite
    exact .inl ⟨fault, written, by rw [put_put]⟩
  · next f₁ hwrite =>
    have hwritten : f₁ = f.put draft (.file content) :=
      (h.write_ok hmade hwrite).trans (put_put _)
    subst hwritten
    have hsync := h.sync_eq (f.put draft (.file content)) draft
    split
    · next fault f₂ hsynced =>
      rw [hsynced] at hsync
      exact .inl ⟨fault, content, by rw [← hsync]⟩
    · next f₂ hsynced =>
      rw [hsynced] at hsync
      obtain rfl : f₂ = f.put draft (.file content) := hsync
      cases hpersist : drafts.persist (f.put draft (.file content)) draft path with
      | mk result f₃ =>
        cases result with
        | error fault => exact .inl ⟨fault, content, by rw [h.persist_error hpersist]⟩
        | ok =>
          have hmoved := h.persist_ok (find?_put_of_free hfree) hpersist
          rw [remove_put hfree] at hmoved
          exact .inr ⟨f₃, rfl, hmoved⟩

end Drafts

/-! ## Saving in steps -/

namespace Folder

/-- The fault of a folder does not concern moves. -/
theorem moveOver_fault {f f' : Folder} {path : Path} {content : List UInt8}
    (h : f.moveOver path content = .ok f') (fault : Option TransportFault) :
    { f with fault := fault }.moveOver path content = .ok { f' with fault := fault } := by
  have hwalk (path : Path) : { f with fault := fault }.walk path = f.walk path := rfl
  have henter (place : Place) (part : String) :
      { f with fault := fault }.enter place part = f.enter place part := rfl
  have hfind (place : Place) : { f with fault := fault }.find? place = f.find? place := rfl
  simp only [moveOver, hwalk, henter, hfind, bind, Except.bind, pure, Except.pure, throw,
    throwThe, MonadExceptOf.throw] at h ⊢
  split at h
  · cases h
  split at h
  · cases h
  split_ifs at h ⊢
  cases h
  rfl

/-- To overwrite a file comes to what its replacement comes to when the folder has the fault that
occurred on the way, if one did. After a fault the folder is as before. -/
theorem overwrite_cases {drafts : Drafts} (hdrafts : drafts.Lawful) (f : Folder) (name : String)
    (content : List UInt8) :
    (∃ fault, f.overwrite drafts name content = (.error fault, f) ∧
      { f with fault := some fault }.replace name content = .error fault) ∨
    ∃ f', f.overwrite drafts name content = (.ok (), f') ∧
      { f with fault := none }.replace name content = .ok { f' with fault := none } := by
  have hbeside (fault : Option TransportFault) :
      { f with fault := fault }.beside name = f.beside name := rfl
  unfold overwrite
  split
  · next fault hnowhere =>
    refine .inl ⟨fault, rfl, ?_⟩
    rw [replace_eq, hbeside, hnowhere]
    rfl
  next path place hplace =>
  have hfault (fault : TransportFault) :
      { f with fault := some fault }.replace name content = .error fault := by
    rw [replace_eq, hbeside, hplace]
    rfl
  split
  · next fault f₁ hcreate =>
    exact .inl ⟨fault, by rw [hdrafts.create_error hcreate], hfault fault⟩
  next own f₁ hcreate =>
  obtain ⟨hfree, rfl⟩ := hdrafts.create_ok hcreate
  obtain ⟨fault, written, hdeliver⟩ | ⟨f', hdeliver, hmoved⟩ :=
    hdrafts.deliver_cases hfree content path
  · refine .inl ⟨fault, ?_, hfault fault⟩
    simp only [hdeliver, hdrafts.discard_eq (find?_put_of_free hfree), remove_put hfree]
  · refine .inr ⟨f', by simp only [hdeliver], ?_⟩
    rw [replace_eq, hbeside, hplace]
    exact moveOver_fault hmoved none

/-- Nothing is overwritten on a disk without the room for it. -/
theorem overwrite_of_full {f : Folder} {name own : String} {content : List UInt8} {room : Nat}
    (hplain : f.IsPlain name) (hfree : f.find? (Place.home ++ [own]) = none)
    (hroom : room < content.length) :
    f.overwrite (.within room [own]) name content = (.error .storageFull, f) := by
  have hcreate : (Drafts.within room [own]).create f Place.home =
      (.ok own, f.put (Place.home ++ [own]) (.file [])) := by
    simp only [Drafts.within, hfree, decide_true, List.find?_cons_of_pos]
  have hdeliver (path : Path) : (Drafts.within room [own]).deliver
      (f.put (Place.home ++ [own]) (.file [])) (Place.home ++ [own]) content path =
        (.error .storageFull, f.put (Place.home ++ [own]) (.file (content.take room))) := by
    simp only [Drafts.deliver, Drafts.within, Nat.not_le.2 hroom, if_false, put_put]
  have hpart : (f.put (Place.home ++ [own]) (.file (content.take room))).find?
      (Place.home ++ [own]) = some (.file (content.take room)) := find?_put_of_free hfree
  have hdiscard := (Drafts.lawful_within room [own]).discard_eq hpart
  simp only [overwrite, beside_of_isPlain hplain, hcreate, hdeliver, hdiscard, remove_put hfree]

end Folder

namespace Store

variable {drafts : Drafts} {s : Store} {folder : Folder} {key : String} {tree : Property}

/-- A save in steps either fails and changes nothing, or it succeeds. In both cases it comes to
what the save as a whole comes to in a folder with the fault that occurred, if one did. -/
theorem commit_cases (hdrafts : drafts.Lawful) (s : Store) (folder : Folder) (key : String)
    (tree : Property) : ∃ fault,
    (∃ e, s.commit drafts folder key tree = (.error e, s, folder) ∧
      s.save { folder with fault := fault } key tree = .error e) ∨
    ∃ s' folder', s.commit drafts folder key tree = (.ok (), s', folder') ∧
      s.save { folder with fault := fault } key tree = .ok (s', { folder' with fault := fault }) := by
  unfold commit save
  split
  · exact ⟨none, .inl ⟨_, rfl, rfl⟩⟩
  dsimp only
  cases hencode : (s.records.insert key tree.toElements).encode with
  | error e => exact ⟨none, .inl ⟨e, rfl, rfl⟩⟩
  | ok content =>
    obtain ⟨fault, hoverwrite, hreplace⟩ | ⟨folder', hoverwrite, hreplace⟩ :=
      folder.overwrite_cases hdrafts s.name content
    · refine ⟨some fault, .inl ⟨.ofFault fault, by simp only [hoverwrite], ?_⟩⟩
      simp only [bind, Except.bind, hreplace]
      rfl
    · refine ⟨none, .inr ⟨{ s with records := s.records.insert key tree.toElements }, folder',
        by simp only [hoverwrite], ?_⟩⟩
      simp only [bind, Except.bind, hreplace]
      rfl

/-- A store that may only be read saves nothing. -/
theorem commit_of_readOnly (hread : s.writable = false) :
    s.commit drafts folder key tree = (.error (.parameter (.readOnly s.path)), s, folder) := by
  simp only [commit, hread, Bool.not_false, if_true]

/-- A store that may be written fails with the fault that keeps its file from being written. -/
theorem commit_of_fault {folder' : Folder} {content : List UInt8} {fault : TransportFault}
    (hwritable : s.writable = true)
    (hencode : (s.records.insert key tree.toElements).encode = .ok content)
    (hoverwrite : folder.overwrite drafts s.name content = (.error fault, folder')) :
    s.commit drafts folder key tree = (.error (.ofFault fault), s, folder') := by
  simp only [commit, hwritable, Bool.not_true, Bool.false_eq_true, if_false, hencode, hoverwrite]

/-- A tree with a double that is not finite, at any depth, is not saved. -/
theorem commit_of_nonFinite (hwritable : s.writable = true) {d : Double}
    (hd : d ∈ Element.listDoubles tree.toElements) (hfinite : d.isFinite = false) :
    ∃ d', s.commit drafts folder key tree = (.error (.parameter (.nonFinite d')), s, folder) := by
  have hmem : d ∈ Records.doubles (s.records.insert key tree.toElements) :=
    List.mem_flatMap.2 ⟨_, Records.mem_of_lookup Records.find?_insert_self, hd⟩
  have hcarries := Records.carries_toJson (s.records.insert key tree.toElements)
  cases hfirst : (Records.toJson (s.records.insert key tree.toElements)).firstNonFinite? with
  | none =>
    rw [hcarries.firstNonFinite?_eq_none_iff.1 hfirst d hmem] at hfinite
    cases hfinite
  | some d' =>
    refine ⟨d', ?_⟩
    simp only [commit, hwritable, Bool.not_true, Bool.false_eq_true, if_false, Records.encode,
      hfirst]

end Store

/-! ## Saving in turn -/

/-- A store and the folder that it is kept in. -/
structure Deposit where
  store : Store
  folder : Folder

namespace Deposit

/-- What happens to a store: a tree is to be saved, or somebody else changes the folder. -/
inductive Step where
  | save (drafts : Drafts) (key : String) (tree : Property)
  | change (change : Folder → Folder)

variable {d : Deposit} {steps : List Step}

/-- Takes one step. Only a save can fail. -/
def step (d : Deposit) : Step → Except Error Unit × Deposit
  | .save drafts key tree =>
    let (result, store, folder) := d.store.commit drafts d.folder key tree
    (result, ⟨store, folder⟩)
  | .change change => (.ok (), { d with folder := change d.folder })

/-- What is there after some steps. -/
def run (d : Deposit) (steps : List Step) : Deposit :=
  steps.foldl (fun d step => (d.step step).2) d

/-- The steps that do not fail when all are taken. -/
def succeeding (d : Deposit) : List Step → List Step
  | [] => []
  | step :: rest =>
    if (d.step step).1.isOk then step :: (d.step step).2.succeeding rest
    else (d.step step).2.succeeding rest

/-- The temporary files of every save can be relied on. -/
def AllLawful (steps : List Step) : Prop :=
  ∀ drafts key tree, .save drafts key tree ∈ steps → drafts.Lawful

/-- A step that fails changes nothing. -/
theorem step_of_error {step : Step} (hstep : ∀ drafts key tree, step = .save drafts key tree →
    drafts.Lawful) {e : Error} (h : (d.step step).1 = .error e) : (d.step step).2 = d := by
  cases step with
  | change => cases h
  | save drafts key tree =>
    obtain ⟨_, ⟨e, hcommit, -⟩ | ⟨s', folder', hcommit, -⟩⟩ :=
      Store.commit_cases (hstep drafts key tree rfl) d.store d.folder key tree
    · simp only [step, hcommit]
    · simp only [step, hcommit] at h
      cases h

/-- Two deposits are the same to everybody who looks at them. -/
structure Alike (d d' : Deposit) : Prop where
  /-- The same bytes, a folder or nothing stands at every place, and every path leads to the same. -/
  find?_eq : ∀ place, d'.folder.find? place = d.folder.find? place
  lookup_eq : ∀ name, d'.folder.lookup name = d.folder.lookup name
  names_eq : d'.folder.names = d.folder.names
  keys_eq : d'.store.keys = d.store.keys
  load_eq : ∀ key, d'.store.load key = d.store.load key
  /-- Whatever is done next comes to the same. -/
  run_eq : ∀ later, d'.run later = d.run later

theorem Alike.refl (d : Deposit) : Alike d d :=
  ⟨fun _ => rfl, fun _ => rfl, rfl, rfl, fun _ => rfl, fun _ => rfl⟩

/-- Among some steps, saves that cannot be carried out fail, and those that fail leave no trace. -/
structure NoTrace (d : Deposit) (steps : List Step) : Prop where
  /-- A store that may only be read saves nothing, and no store saves a double that is not finite,
  at any depth. -/
  refused : ∀ before drafts key tree after, steps = before ++ .save drafts key tree :: after →
    ((d.run before).store.writable = false ∨
      ∃ x ∈ Element.listDoubles tree.toElements, x.isFinite = false) →
    ∃ reason, ((d.run before).step (.save drafts key tree)).1 = .error (.parameter reason)
  /-- After a save that failed everything is as it was before. -/
  alike : ∀ before step after, steps = before ++ step :: after →
    ∀ e, ((d.run before).step step).1 = .error e →
      Alike (d.run before) ((d.run before).step step).2
  /-- The steps that do not fail come to the same without the others, and do not fail then. -/
  run_eq : d.run (d.succeeding steps) = d.run steps
  succeed : ∀ before step after, d.succeeding steps = before ++ step :: after →
    ((d.run before).step step).1 = .ok ()

theorem refused (d : Deposit) (drafts : Drafts) (key : String) (tree : Property)
    (h : d.store.writable = false ∨ ∃ x ∈ Element.listDoubles tree.toElements, x.isFinite = false) :
    ∃ reason, (d.step (.save drafts key tree)).1 = .error (.parameter reason) := by
  cases hwritable : d.store.writable with
  | false => exact ⟨_, congrArg (·.1) (Store.commit_of_readOnly hwritable)⟩
  | true =>
    obtain hread | ⟨x, hx, hfinite⟩ := h
    · rw [hread] at hwritable
      cases hwritable
    · obtain ⟨y, hcommit⟩ := Store.commit_of_nonFinite hwritable hx hfinite
      exact ⟨_, congrArg (·.1) hcommit⟩

theorem AllLawful.of_cons {first : Step} (h : AllLawful (first :: steps)) : AllLawful steps :=
  fun drafts key tree hsave => h drafts key tree (List.mem_cons_of_mem _ hsave)

/-- Either the first step does not fail, or it might as well not be there. -/
theorem succeeding_cons (d : Deposit) {first : Step} (h : AllLawful (first :: steps)) :
    ((d.step first).1 = .ok () ∧
      d.succeeding (first :: steps) = first :: (d.step first).2.succeeding steps) ∨
    ((d.step first).2 = d ∧ d.succeeding (first :: steps) = d.succeeding steps) := by
  rw [succeeding]
  cases hresult : (d.step first).1 with
  | ok => exact .inl ⟨rfl, if_pos rfl⟩
  | error e =>
    have hsame : (d.step first).2 = d := by
      refine step_of_error (fun drafts key tree hsave => ?_) hresult
      exact h drafts key tree (hsave ▸ List.mem_cons_self)
    rw [hsame]
    exact .inr ⟨rfl, if_neg nofun⟩

theorem run_succeeding (h : AllLawful steps) : d.run (d.succeeding steps) = d.run steps := by
  induction steps generalizing d with
  | nil => rfl
  | cons first rest ih =>
    have hrun : d.run (first :: rest) = (d.step first).2.run rest := rfl
    obtain ⟨-, hsucceeding⟩ | ⟨hsame, hsucceeding⟩ := d.succeeding_cons h
    · rw [hsucceeding, hrun]
      exact ih h.of_cons
    · rw [hsucceeding, hrun, hsame]
      exact ih h.of_cons

theorem step_of_succeeding {before after : List Step} {step : Step} (h : AllLawful steps)
    (hsteps : d.succeeding steps = before ++ step :: after) :
    ((d.run before).step step).1 = .ok () := by
  induction steps generalizing d before with
  | nil => cases before <;> cases hsteps
  | cons first rest ih =>
    obtain ⟨hfirst, hsucceeding⟩ | ⟨-, hsucceeding⟩ := d.succeeding_cons h
    · rw [hsucceeding] at hsteps
      cases before with
      | nil =>
        obtain ⟨rfl, -⟩ := List.cons.inj hsteps
        exact hfirst
      | cons other before =>
        obtain ⟨rfl, hrest⟩ := List.cons.inj hsteps
        exact ih (d := (d.step first).2) h.of_cons hrest
    · rw [hsucceeding] at hsteps
      exact ih h.of_cons hsteps

/-- Whenever saves fail in whatever way, nothing changes, and the others come to the same. -/
theorem noTrace (d : Deposit) (h : AllLawful steps) : d.NoTrace steps where
  refused before drafts key tree _ _ hbad := (d.run before).refused drafts key tree hbad
  alike before step after hsteps e he := by
    have hlawful : ∀ drafts key tree, step = .save drafts key tree → drafts.Lawful := by
      rintro drafts key tree rfl
      exact h drafts key tree (hsteps ▸ List.mem_append_right _ List.mem_cons_self)
    rw [step_of_error hlawful he]
    exact .refl _
  run_eq := run_succeeding h
  succeed _ _ _ := step_of_succeeding h

/-- Of three saves the first finds the disk full, and the second is one of what is no number. -/
theorem noTrace_three : ∃ (d : Deposit) (full ill last : Step),
    (d.step full).1 = .error (.ofFault .storageFull) ∧
      (∃ reason, (d.step ill).1 = .error (.parameter reason)) ∧
      AllLawful [full, ill, last] ∧ d.NoTrace [full, ill, last] := by
  let odd : Property := ⟨reservedId, [.branch none [.leaf none (.double .nan)]]⟩
  let d : Deposit := ⟨⟨"store.json", "d/store.json", true, []⟩, .empty "d"⟩
  have hlawful : AllLawful [.save (.within 0 [".tmp"]) "a" .lamp,
      .save (.within 1000 [".tmp"]) "a" odd, .save (.within 1000 [".tmp"]) "b" .lamp] := by
    intro drafts key tree hsave
    simp only [List.mem_cons, List.not_mem_nil, or_false, Step.save.injEq] at hsave
    rcases hsave with ⟨rfl, -⟩ | ⟨rfl, -⟩ | ⟨rfl, -⟩ <;> exact Drafts.lawful_within _ _
  obtain ⟨content, hencode⟩ :
      ∃ content, (d.store.records.insert "a" Property.lamp.toElements).encode = .ok content :=
    Records.exists_encode fun x hx => nomatch hx
  have hfull : d.folder.overwrite (.within 0 [".tmp"]) "store.json" content =
      (.error .storageFull, d.folder) :=
    Folder.overwrite_of_full Store.isPlain_empty rfl (Records.length_pos_of_encode hencode)
  refine ⟨d, _, _, _, ?_, d.refused _ _ odd (.inr ⟨.nan, ?_, rfl⟩), hlawful, noTrace d hlawful⟩
  · exact congrArg (·.1) (Store.commit_of_fault rfl hencode hfull)
  · exact List.mem_singleton.2 rfl

end Deposit

end Vdc
