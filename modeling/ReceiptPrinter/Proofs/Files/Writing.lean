import ReceiptPrinter.Files.Disk

/-! # Writing — what a path leads to once it was written to

    Directories are the beginnings of the places of files, so a file that is made
    may change where other paths lead.  It does not change where its own path
    leads: what is a directory stays one, and no file but the written one is
    another than before (`Rewritten`).  So a path that can be written to leads to
    its file afterwards, and reading it gives what was written
    (`Rewritten.read`). -/

namespace ReceiptPrinter.Disk

/-- One disk is another one with a file of the given content at one place. -/
structure Rewritten (d : Disk) (place : Place) (content : Array UInt8) (d' : Disk) : Prop where
  working : d'.working = d.working
  places : ∀ file ∈ d.files, ∃ file' ∈ d'.files, file'.1 = file.1
  others : ∀ other, other ≠ place → d'.content? other = d.content? other
  content : d'.content? place = some content

/-! ## The two ways of writing -/

theorem lookup_emptied_other {place other : Place} (h : other ≠ place)
    (files : List (Place × Array UInt8)) :
    (emptied place files).lookup other = files.lookup other := by
  induction files with
  | nil =>
      rw [emptied, List.lookup_cons, beq_false_of_ne h]
  | cons file rest ih =>
      obtain ⟨p, content⟩ := file
      rw [emptied]
      split
      next hp =>
        rw [List.lookup_cons, List.lookup_cons, hp, beq_false_of_ne h]
      next =>
        rw [List.lookup_cons, List.lookup_cons, ih]

theorem lookup_extended_other {place other : Place} (h : other ≠ place) (data : Bytes)
    (files : List (Place × Array UInt8)) :
    (extended place data files).lookup other = files.lookup other := by
  induction files with
  | nil => rfl
  | cons file rest ih =>
      obtain ⟨p, content⟩ := file
      rw [extended]
      split
      next hp =>
        rw [List.lookup_cons, List.lookup_cons, hp, beq_false_of_ne h]
      next =>
        rw [List.lookup_cons, List.lookup_cons, ih]

theorem mem_emptied {place : Place} {files : List (Place × Array UInt8)}
    {file : Place × Array UInt8} (h : file ∈ files) :
    ∃ file' ∈ emptied place files, file'.1 = file.1 := by
  induction files with
  | nil => cases h
  | cons first rest ih =>
      obtain ⟨p, content⟩ := first
      rw [emptied]
      split
      next =>
        rcases List.mem_cons.mp h with rfl | h
        · exact ⟨_, List.mem_cons_self, rfl⟩
        · exact ⟨file, List.mem_cons_of_mem _ h, rfl⟩
      next =>
        rcases List.mem_cons.mp h with rfl | h
        · exact ⟨_, List.mem_cons_self, rfl⟩
        · obtain ⟨file', hmem, heq⟩ := ih h
          exact ⟨file', List.mem_cons_of_mem _ hmem, heq⟩

theorem map_fst_extended (place : Place) (data : Bytes) (files : List (Place × Array UInt8)) :
    (extended place data files).map Prod.fst = files.map Prod.fst := by
  induction files with
  | nil => rfl
  | cons file rest ih =>
      obtain ⟨p, content⟩ := file
      rw [extended]
      split
      next => rfl
      next => rw [List.map_cons, List.map_cons, ih]

/-- A file that was emptied or made. -/
theorem rewritten_emptied (d : Disk) (place : Place) :
    d.Rewritten place #[] { d with files := emptied place d.files } where
  working := rfl
  places := fun _ h => mem_emptied h
  others := fun _ h => lookup_emptied_other h d.files
  content := lookup_emptied place d.files

/-- Bytes that are added go to the end of what was written before. -/
theorem Rewritten.append {d d' : Disk} {place : Place} {content : Array UInt8}
    (h : d.Rewritten place content d') (data : Bytes) :
    d.Rewritten place (content.appendList data) (d'.append place data) where
  working := h.working
  places := by
    intro file hf
    obtain ⟨file', hmem, heq⟩ := h.places file hf
    have hfst : file'.1 ∈ (extended place data d'.files).map Prod.fst := by
      rw [map_fst_extended]
      exact List.mem_map_of_mem hmem
    obtain ⟨file'', hmem, hfst⟩ := List.mem_map.mp hfst
    exact ⟨file'', hmem, hfst.trans heq⟩
  others := fun other ho => (lookup_extended_other ho data d'.files).trans (h.others other ho)
  content := by
    have found := lookup_extended place data d'.files
    rw [show d'.files.lookup place = some content from h.content] at found
    exact found

theorem extended_nil (place : Place) (files : List (Place × Array UInt8)) :
    extended place [] files = files := by
  induction files with
  | nil => rfl
  | cons file rest ih =>
      obtain ⟨p, content⟩ := file
      rw [extended, ih]
      exact ite_self _

/-- Adding no bytes changes nothing. -/
theorem append_nil (d : Disk) (place : Place) : d.append place [] = d := by
  rw [append, extended_nil]

theorem extended_extended (place : Place) (first second : Bytes)
    (files : List (Place × Array UInt8)) :
    extended place second (extended place first files)
      = extended place (first ++ second) files := by
  induction files with
  | nil => rfl
  | cons file rest ih =>
      obtain ⟨p, content⟩ := file
      rw [extended, extended]
      split
      next hp =>
        rw [extended, if_pos hp]
        exact congrArg (fun content => (p, content) :: rest) List.foldl_append.symm
      next hp =>
        rw [extended, if_neg hp, ih]

/-- Adding bytes and then others is adding them together. -/
theorem append_append (d : Disk) (place : Place) (first second : Bytes) :
    (d.append place first).append place second = d.append place (first ++ second) := by
  rw [append, append, append, extended_extended]

/-! ## Following a path -/

theorem Rewritten.hasDirectory {d d' : Disk} {place there : Place} {content : Array UInt8}
    (h : d.Rewritten place content d') (directory : d.hasDirectory there = true) :
    d'.hasDirectory there = true := by
  rw [Disk.hasDirectory, Bool.or_eq_true] at directory ⊢
  rw [h.working]
  refine directory.imp_right fun inside => ?_
  obtain ⟨file, hf, hbegins⟩ := List.any_eq_true.mp inside
  obtain ⟨file', hf', heq⟩ := h.places file hf
  refine List.any_eq_true.mpr ⟨file', hf', ?_⟩
  rw [heq]
  exact hbegins

/-- A path that leads to a file, or to a place for one in a directory that is there. -/
inductive Target.At (place : Place) : Target → Prop
  | file (content : Array UInt8) : At place (.file place content)
  | vacant : At place (.vacant place)

/-- After writing to a place, the names that led to it lead to its file.  Where a
    file is or can be made there is no directory, so no directory on the way is
    lost. -/
theorem Rewritten.follow {d d' : Disk} {place : Place} {content : Array UInt8}
    (h : d.Rewritten place content d') {names : List String} {here : Place} {t : Target}
    (found : d.follow here names = .ok t) (at_ : Target.At place t) :
    (d.content? place = none → d.hasDirectory place = false)
      ∧ d'.follow here names = .ok (.file place content) := by
  induction names generalizing here with
  | nil =>
      cases found
      cases at_
  | cons name rest ih =>
      rw [Disk.follow] at found ⊢
      by_cases blank : name = "" ∨ name = "."
      · rw [if_pos blank] at found ⊢
        exact ih found
      rw [if_neg blank] at found ⊢
      by_cases up : name = ".."
      · rw [if_pos up] at found ⊢
        exact ih found
      rw [if_neg up] at found ⊢
      by_cases long : maxName < name.utf8ByteSize
      · rw [if_pos long] at found
        cases found
      rw [if_neg long] at found ⊢
      dsimp only at found ⊢
      cases present : d.content? (here ++ [name]) with
      | some old =>
          rw [present] at found
          dsimp only at found
          by_cases last : rest.isEmpty = true
          · rw [if_pos last] at found
            cases found
            cases at_
            rw [h.content, present]
            exact ⟨nofun, if_pos last⟩
          · rw [if_neg last] at found
            cases found
      | none =>
          rw [present] at found
          dsimp only at found
          by_cases directory : d.hasDirectory (here ++ [name]) = true
          · rw [if_pos directory] at found
            obtain ⟨alone, follows⟩ := ih found
            have other : here ++ [name] ≠ place := by
              rintro rfl
              rw [alone present] at directory
              cases directory
            rw [h.others _ other, present]
            dsimp only
            rw [if_pos (h.hasDirectory directory)]
            exact ⟨alone, follows⟩
          · rw [if_neg directory] at found
            by_cases last : rest.isEmpty = true
            · rw [if_pos last] at found
              cases found
              cases at_
              rw [h.content]
              exact ⟨fun _ => Bool.eq_false_iff.mpr directory, if_pos last⟩
            · rw [if_neg last] at found
              cases found

/-- A path that can be written to leads to the place of its file. -/
theorem target_of_writable {d : Disk} {path : String} {place : Place}
    (h : d.writable path = .ok place) : ∃ t, d.target path = .ok t ∧ Target.At place t := by
  rw [writable] at h
  by_cases slash : (path.toList.getLast? == some '/') = true
  · rw [if_pos slash] at h
    cases h
  rw [if_neg slash] at h
  cases found : d.target path with
  | error fault =>
      rw [found] at h
      cases h
  | ok t =>
      rw [found] at h
      cases t with
      | file place content =>
          cases h
          exact ⟨_, rfl, .file content⟩
      | directory => cases h
      | vacant place =>
          cases h
          exact ⟨_, rfl, .vacant⟩

/-- **WHAT IS WRITTEN IS READ.**  A path that can be written to leads to what was
    written. -/
theorem Rewritten.read {d d' : Disk} {place : Place} {content : Array UInt8}
    (h : d.Rewritten place content d') {path : String} (writable : d.writable path = .ok place) :
    d'.read path = .ok content.toList := by
  obtain ⟨t, found, at_⟩ := target_of_writable writable
  have hstart : d'.start path = d.start path := by
    rw [start, start, h.working]
  have target : d'.target path = .ok (.file place content) := by
    rw [Disk.target] at found ⊢
    split at found
    · cases found
    · rw [hstart]
      exact (h.follow found at_).2
  rw [Disk.read, target]

end ReceiptPrinter.Disk
