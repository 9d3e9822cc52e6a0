import Mathlib.Tactic.SplitIfs
import Vdc.Store.Folder

/-!
# Replaced files

A file that was replaced is found under its name with its new content: `lookup_of_replace`. The
place where it stands was no folder before, so the walk to it, which goes through folders only, is
not changed by what is put there.

A path of a single name leads to the file of that name in the folder, and such a file can be
replaced whenever the folder allows for it: `replace_of_isPlain`.
-/

namespace Vdc.Folder

/-! ## What is put on no way -/

variable {f : Folder} {place : Place} {entry : FileEntry}

theorem find?_put_self (hplace : f.find? place ≠ some .folder) :
    (f.put place entry).find? place = some entry := by
  have hnamed : ¬ (place = [] ∨ place = Place.home) := fun h => hplace (if_pos h)
  rw [find?, if_neg hnamed, put]
  simp

theorem find?_put_of_ne {other : Place} (h : other ≠ place) :
    (f.put place entry).find? other = f.find? other := by
  by_cases hother : other = [] ∨ other = Place.home
  · rw [find?, find?, if_pos hother, if_pos hother]
  · rw [find?, find?, if_neg hother, if_neg hother, put,
      List.find?_cons_of_neg (by simpa using h.symm), List.find?_filter]
    congr 2
    funext e
    by_cases he : e.1 = other <;> simp [he, h]

/-- Only from a folder a part of a path leads on. -/
theorem find?_of_enter {part : String} {start next : Place} (h : f.enter start part = .ok next) :
    f.find? start = some .folder := by
  unfold enter at h
  split at h
  · cases h
  · cases h
  · assumption

theorem enter_put (hplace : f.find? place ≠ some .folder) {part : String} {start next : Place}
    (h : f.enter start part = .ok next) : (f.put place entry).enter start part = .ok next := by
  have hne : start ≠ place := by
    rintro rfl
    exact hplace (find?_of_enter h)
  rw [← h, enter, enter, find?_put_of_ne hne]

/-- What is put where no folder stands is on no walk. -/
theorem walk_put (hplace : f.find? place ≠ some .folder) {parts : List String}
    {start target : Place} (h : f.walk ⟨start, parts⟩ = .ok target) :
    (f.put place entry).walk ⟨start, parts⟩ = .ok target := by
  induction parts generalizing start with
  | nil => exact h
  | cons part rest ih =>
    rw [walk, List.foldlM_cons] at h ⊢
    cases hnext : f.enter start part with
    | error fault =>
      rw [hnext] at h
      cases h
    | ok next =>
      rw [hnext] at h
      rw [enter_put hplace hnext]
      exact ih h

theorem walk_nil (f : Folder) (start : Place) : f.walk ⟨start, []⟩ = .ok start := rfl

theorem walk_snoc (f : Folder) (start : Place) (parts : List String) (part : String) :
    f.walk ⟨start, parts ++ [part]⟩ = (f.walk ⟨start, parts⟩).bind (f.enter · part) := by
  rw [walk, List.foldlM_append]
  refine bind_congr fun place => ?_
  rw [List.foldlM_cons]
  cases f.enter place part <;> rfl

/-- A file that was moved stands where the path leads, and nothing else has changed. -/
theorem eq_put_of_moveOver {f' : Folder} {path : Path} {content : List UInt8}
    (h : f.moveOver path content = .ok f') :
    ∃ place, f.walk path = .ok place ∧ f.find? place ≠ some .folder ∧
      f' = f.put place (.file content) := by
  obtain ⟨start, parts⟩ := path
  unfold moveOver at h
  simp only [bind, Except.bind, pure, Except.pure, throw, throwThe, MonadExceptOf.throw] at h
  split at h
  · cases h
  next folder hfolder =>
  split at h
  · cases h
  next place hplace =>
  split_ifs at h with hname hslashes htarget
  -- The path ends in a name, so the walk to the place is the one to its folder and a step.
  have hnone : parts.reverse.takeWhile (· == "") = [] := by simpa using hslashes
  rw [hnone, List.length_nil, Nat.sub_zero, List.take_length] at hfolder hplace hname
  obtain ⟨init, last, rfl⟩ : ∃ init last, parts = init ++ [last] := by
    rcases parts.eq_nil_or_concat with rfl | ⟨init, last, rfl⟩
    · simp [stays] at hname
    · exact ⟨init, last, List.concat_eq_append⟩
  rw [List.dropLast_concat] at hfolder
  rw [List.getLast?_concat, Option.getD_some] at hplace
  refine ⟨place, ?_, htarget, (Except.ok.inj h).symm⟩
  rw [walk_snoc, hfolder, Except.bind, hplace]

theorem replace_eq (f : Folder) (name : String) (content : List UInt8) :
    f.replace name content = (f.beside name).bind fun (path, _) =>
      match f.fault with
      | some fault => .error fault
      | none => f.moveOver path content := by
  rw [replace]
  cases f.beside name with
  | error fault => rfl
  | ok found => cases f.fault <;> rfl

theorem path_of_beside {name : String} {path : Path} (h : f.beside name = .ok (path, place)) :
    f.path name = .ok path := by
  unfold beside at h
  cases hpath : f.path name with
  | error fault =>
    rw [hpath] at h
    cases h
  | ok found =>
    rw [hpath] at h
    simp only [bind, Except.bind] at h
    split at h
    · cases h
    split at h
    · cases h
    · cases h
      rfl

/-- A file that was replaced is found with its new content. -/
theorem lookup_of_replace {f' : Folder} {name : String} {content : List UInt8}
    (h : f.replace name content = .ok f') : f'.lookup name = .ok (.file content) := by
  rw [replace_eq] at h
  cases hbeside : f.beside name with
  | error fault =>
    rw [hbeside] at h
    cases h
  | ok found =>
    obtain ⟨path, place⟩ := found
    have hmove : f.moveOver path content = .ok f' := by
      rw [hbeside] at h
      simp only [Except.bind] at h
      split at h
      · cases h
      · exact h
    obtain ⟨target, hwalk, htarget, rfl⟩ := eq_put_of_moveOver hmove
    have hpath : f.path name = .ok path := path_of_beside hbeside
    have hpath' : (f.put target (.file content)).path name = .ok path := hpath
    have hwalk' : (f.put target (.file content)).walk path = .ok target := walk_put htarget hwalk
    rw [lookup, resolve, hpath']
    simp only [bind, Except.bind, hwalk', find?_put_self htarget]
    rfl

/-! ## Paths of one name -/

/-- A path that is a name, not too long by itself or as it is shown. -/
structure IsPlain (f : Folder) (name : String) : Prop where
  slash_notMem : '/' ∉ name.toList
  zero_notMem : '\x00' ∉ name.toList
  stays_eq : stays name = false
  ne_back : name ≠ ".."
  size_le : name.utf8ByteSize ≤ maxName
  path_size_le : (f.pathOf name).utf8ByteSize ≤ maxPath

variable {name : String}

theorem path_of_isPlain (h : f.IsPlain name) : f.path name = .ok ⟨Place.home, [name]⟩ := by
  have hzero : name.contains '\x00' = false := by
    rw [String.contains_char_eq]
    exact decide_eq_false h.zero_notMem
  have hrelative : isAbsolute name = false := by
    rw [isAbsolute, String.startsWith_string_eq_false_iff]
    intro hfirst
    exact h.slash_notMem (hfirst.subset (List.mem_singleton.2 rfl))
  rw [path, hzero, hrelative, if_neg (by simp), if_neg (Nat.not_lt.2 h.path_size_le),
    Parts.split_eq_singleton h.slash_notMem, List.map_singleton, String.ofList_toList]
  rfl

theorem enter_home_of_isPlain (h : f.IsPlain name) :
    f.enter Place.home name = .ok (Place.home ++ [name]) := by
  have hhome : f.find? Place.home = some .folder := if_pos (.inr rfl)
  rw [enter, hhome]
  simp [h.stays_eq, h.ne_back, Nat.not_lt.2 h.size_le]

theorem lookup_of_isPlain (h : f.IsPlain name) (hfree : f.find? (Place.home ++ [name]) = none) :
    f.lookup name = .error .notFound := by
  have hresolve : f.resolve name = .ok (Place.home ++ [name]) := by
    rw [resolve, path_of_isPlain h]
    exact (bind_pure _).trans (enter_home_of_isPlain h)
  rw [lookup, hresolve]
  simp only [bind, Except.bind, hfree]
  rfl

theorem beside_of_isPlain (h : f.IsPlain name) :
    f.beside name = .ok (⟨Place.home, [name]⟩, Place.home) := by
  have hhome : f.find? Place.home = some .folder := if_pos (.inr rfl)
  have hstay : f.enter Place.home "." = .ok Place.home := by
    rw [enter, hhome]
    rfl
  have hparts : ([name].filter (!stays ·)).dropLast = [] := by simp [h.stays_eq]
  rw [beside, path_of_isPlain h]
  simp only [bind, Except.bind, hparts, walk_nil, hstay]
  rfl

/-- A file that a name leads to is replaced unless there is a folder or the folder has a fault. -/
theorem replace_of_isPlain (h : f.IsPlain name) (hfault : f.fault = none)
    (hfree : f.find? (Place.home ++ [name]) ≠ some .folder) (content : List UInt8) :
    f.replace name content = .ok (f.put (Place.home ++ [name]) (.file content)) := by
  have hnonempty : (name == "") = false := by
    have hstays := h.stays_eq
    simp only [stays, Bool.or_eq_false_iff] at hstays
    simpa using hstays.1
  have hmove : f.moveOver ⟨Place.home, [name]⟩ content =
      .ok (f.put (Place.home ++ [name]) (.file content)) := by
    simp [moveOver, hnonempty, walk_nil, enter_home_of_isPlain h, h.stays_eq, h.ne_back, hfree,
      bind, Except.bind, pure, Except.pure]
  rw [replace_eq, beside_of_isPlain h]
  simp only [Except.bind, hfault, hmove]

theorem IsPlain.put (h : f.IsPlain name) : (f.put place entry).IsPlain name :=
  ⟨h.slash_notMem, h.zero_notMem, h.stays_eq, h.ne_back, h.size_le, h.path_size_le⟩

end Vdc.Folder
