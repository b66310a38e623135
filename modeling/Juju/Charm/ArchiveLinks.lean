import Juju.Charm.CharmDirectory

namespace Juju.Charm
open Juju.Base Juju.Lib

section errors

variable {ε α β : Type}

def errorOf : Except ε α → Option ε
  | .ok _ => none
  | .error e => some e

@[simp] theorem errorOf_eq_some (m : Except ε α) (e : ε) :
    errorOf m = some e ↔ m = .error e := by
  cases m with
  | ok a => simp [errorOf]
  | error e' => simp [errorOf]

theorem errorOf_bind_pure (m : Except ε α) (f : α → β) :
    errorOf (m >>= fun a => pure (f a)) = errorOf m := by
  cases m with
  | ok a => rfl
  | error e => rfl

/-- A pass fails with the first of its errors. -/
theorem errorOf_mapM (f : α → Except ε β) (l : List α) :
    errorOf (l.mapM f) = l.findSome? fun a => errorOf (f a) := by
  induction l with
  | nil => rfl
  | cons a l ih =>
    rw [List.mapM_cons, List.findSome?_cons]
    cases hf : f a with
    | error e => rfl
    | ok b =>
      have hrest := errorOf_bind_pure (l.mapM f) fun bs => b :: bs
      exact hrest.trans ih

theorem findSome?_filter (p : α → Bool) (g : α → Option β) (l : List α) :
    (l.filter p).findSome? g = l.findSome? fun a => if p a then g a else none := by
  induction l with
  | nil => rfl
  | cons a l ih =>
    cases hp : p a with
    | true => simp [hp, ih, List.findSome?_cons]
    | false => simp [hp, ih]

theorem findSome?_flatMap (f : α → List β) {γ : Type} (g : β → Option γ) (l : List α) :
    (l.flatMap f).findSome? g = l.findSome? fun a => (f a).findSome? g := by
  induction l with
  | nil => rfl
  | cons a l ih =>
    rw [List.flatMap_cons, List.findSome?_append, List.findSome?_cons, ih]
    cases (f a).findSome? g with
    | none => rfl
    | some e => rfl

theorem findSome?_takeWhile (p : α → Bool) (g : α → Option β) (l : List α)
    (h : (l.takeWhile p).findSome? g = none) :
    l.findSome? g = (l.dropWhile p).findSome? g := by
  conv_lhs => rw [← List.takeWhile_append_dropWhile (p := p) (l := l)]
  rw [List.findSome?_append, h, Option.none_or]

end errors

namespace CharmDirectory

variable (c : CharmDirectory) (w : Host)

/-- The files of the walk that are not left out, by their paths. -/
def visitFiles (visit : Visit) : List (String × Leaf) :=
  (visit.filenames.filter fun file =>
    !ignore (join (c.relativePath visit.dirpath) file.1)).map fun file =>
      (join visit.dirpath file.1, file.2)

def charmFiles : List (String × Leaf) := (walk w c.path).flatMap c.visitFiles

/-- The file is a regular file, or a link to one. -/
def isRegular (file : String × Leaf) : Bool :=
  match w.stat file.1 file.2 with
  | some (.leaf (.file _ _)) => true
  | _ => false

def linkOf (file : String × Leaf) : Option (String × String) :=
  match file.2 with
  | .link target => some (file.1, target)
  | _ => none

/-- The links to regular files, by their paths and their targets. -/
def regularLinks : List (String × String) := ((c.charmFiles w).filter (isRegular w)).filterMap linkOf

/-- The link is relative, and leads to a place in the charm's directory. -/
def Internal (link : String × String) : Prop :=
  isabs link.2 = false ∧
    ∃ top place, w.leads c.path = some top ∧ w.follows link.1 link.2 = some place ∧ top <+: place

/-- No link is what the archive fails for. -/
def AcceptsLinks : Prop :=
  ∀ path message, c.makeArchive w = .error (c.invalid path message) →
    message = "Invalid file type for a charm"

def RaisesInvalid : Prop := ∃ path message, c.makeArchive w = .error (c.invalid path message)

/-- The links to regular files are accepted if they are internal, and refused otherwise. -/
def ChecksLinks : Prop :=
  ((∀ link ∈ c.regularLinks w, c.Internal w link) → c.AcceptsLinks w) ∧
    ((∃ link ∈ c.regularLinks w, ¬ c.Internal w link) → c.RaisesInvalid w)

/-- The path of the charm starts with its absolute path. -/
def absoluteText : Bool := startswith c.path (abspath w.getcwd c.path)

/-- The links among the files before the first that is no regular file. -/
def checkedLinks : List (String × String) :=
  ((c.charmFiles w).takeWhile (isRegular w)).filterMap linkOf

/-- The first file that is no regular file can be examined. -/
def SpecialFirst : Prop :=
  ∃ file, ((c.charmFiles w).dropWhile (isRegular w)).head? = some file ∧
    w.stat file.1 file.2 ≠ none

def checkFile (file : String × Leaf) : Except ArchiveError Unit := do
  c.checkType w file.1 file.2
  match file.2 with
  | .link target => c.checkLink w file.1 target
  | _ => return ()

theorem archiveFile_error (dirpath : String) (file : String × Leaf) :
    errorOf (c.archiveFile w dirpath file) =
      if !ignore (join (c.relativePath dirpath) file.1) then
        errorOf (c.checkFile w (join dirpath file.1, file.2))
      else none := by
  unfold archiveFile checkFile
  cases hignore : ignore (join (c.relativePath dirpath) file.1) with
  | true => simp [hignore, errorOf]
  | false =>
    obtain ⟨name, l⟩ := file
    cases htype : c.checkType w (join dirpath name) l with
    | error e => simp [hignore, htype, errorOf, bind, Except.bind]
    | ok u =>
      cases l with
      | file perm content => simp [hignore, htype, errorOf, bind, Except.bind, pure, Except.pure]
      | special => simp [hignore, htype, errorOf, bind, Except.bind, pure, Except.pure]
      | link target =>
        cases hlink : c.checkLink w (join dirpath name) target with
        | error e => simp [hignore, htype, hlink, errorOf, bind, Except.bind]
        | ok u => simp [hignore, htype, hlink, errorOf, bind, Except.bind, pure, Except.pure]

theorem archiveVisit_error (visit : Visit) :
    errorOf (c.archiveVisit w visit) =
      (c.visitFiles visit).findSome? fun file => errorOf (c.checkFile w file) := by
  rw [archiveVisit, errorOf_bind_pure, errorOf_mapM, visitFiles, List.findSome?_map,
    findSome?_filter]
  simp only [archiveFile_error, Function.comp_apply]

/-- The archive fails with the error of the first file that fails its check. -/
theorem makeArchive_error :
    errorOf (c.makeArchive w) =
      (c.charmFiles w).findSome? fun file => errorOf (c.checkFile w file) := by
  rw [makeArchive, errorOf_bind_pure, errorOf_mapM, charmFiles, findSome?_flatMap]
  simp only [archiveVisit_error]

section walk

variable {w}

theorem filenames_mem (dirpath : String) (l : Listing) (hl : l.WellFormed) :
    ∀ file ∈ filenames w dirpath l,
      IsFileName file.1 ∧ w.isdir (join dirpath file.1) file.2 = false := by
  induction l with
  | nil => simp [filenames]
  | leaf name leaf rest ih =>
    intro file hfile
    rw [filenames] at hfile
    split at hfile
    · exact ih hl.2.2 file hfile
    · rename_i hdir
      cases List.mem_cons.mp hfile with
      | inl he => exact ⟨he ▸ hl.1, by simpa [he] using hdir⟩
      | inr hin => exact ih hl.2.2 file hin
  | directory name perm inside rest _ ih => exact ih hl.2.2.2

/-- What holds of the top, and of a name joined to a path it holds of, holds of all paths. -/
theorem walkBelow_mem (P : String → Prop)
    (hjoin : ∀ dirpath name, P dirpath → IsFileName name → P (join dirpath name))
    (dirpath : String) (l : Listing) (hpath : P dirpath) (hl : l.WellFormed) :
    ∀ visit ∈ walkBelow w dirpath l, P visit.dirpath ∧
      ∃ inside, inside.WellFormed ∧ visit.filenames = filenames w visit.dirpath inside := by
  induction l generalizing dirpath with
  | nil => simp [walkBelow]
  | leaf name leaf rest ih => exact ih dirpath hpath hl.2.2
  | directory name perm inside rest ihinside ih =>
    have hname := hjoin dirpath name hpath hl.1
    intro visit hvisit
    rw [walkBelow, List.cons_append, List.mem_cons, List.mem_append] at hvisit
    rcases hvisit with rfl | hin | hin
    · exact ⟨hname, inside, hl.2.2.1, rfl⟩
    · exact ihinside (join dirpath name) hname hl.2.2.1 visit hin
    · exact ih dirpath hpath hl.2.2.2 visit hin

theorem walk_mem (P : String → Prop)
    (hjoin : ∀ dirpath name, P dirpath → IsFileName name → P (join dirpath name))
    (top : String) (htop : P top) :
    ∀ visit ∈ walk w top, P visit.dirpath ∧
      ∃ inside, inside.WellFormed ∧ visit.filenames = filenames w visit.dirpath inside := by
  intro visit hvisit
  unfold walk at hvisit
  split at hvisit
  · simp at hvisit
  · split at hvisit
    · rename_i inside hnode hinside
      have hl := Listing.listdir_wellFormed _ _ _ w.wellFormed hinside
      rcases List.mem_cons.mp hvisit with rfl | hin
      · exact ⟨htop, inside, hl, rfl⟩
      · exact walkBelow_mem P hjoin top inside htop hl visit hin
    · simp at hvisit

end walk

/-- The path of the charm, or a path below it. -/
def Below (dirpath : String) : Prop :=
  ∃ rest, dirpath = c.path ++ rest ∧ rest.toList.getLast? ≠ some '/'

theorem below_join (dirpath name : String) (h : c.Below dirpath) (hname : IsFileName name) :
    c.Below (join dirpath name) := by
  obtain ⟨rest, rfl, -⟩ := h
  obtain ⟨slash, hjoin, -⟩ := join_name (c.path ++ rest) name hname.1
  obtain ⟨front, last, hlast, hne⟩ := nodeName_snoc name hname.1
  refine ⟨rest ++ slash ++ name, by simp [hjoin, String.append_assoc], ?_⟩
  simpa [hlast] using hne

theorem join_start (dirpath target : String) (h : isabs target = false) :
    dirpath.toList <+: (join dirpath target).toList := by
  unfold join
  rw [if_neg (by simp [h])]
  split
  · simp
  · simp [List.append_assoc]

/-- Whether the text of a relative link passes is the same for every link. -/
theorem checkLink_text (dirpath name target : String) (hpath : c.path ≠ "")
    (h : c.Below dirpath) (hname : IsFileName name) (hrelative : isabs target = false) :
    startswith (join (dirname (join dirpath name)) target) (abspath w.getcwd c.path) =
      c.absoluteText w := by
  obtain ⟨rest, rfl, hrest⟩ := h
  have hne : c.path ++ rest ≠ "" := by simp [hpath]
  have hdirname := dirname_join (c.path ++ rest) name hname.1 hne
  have hstart : stripped c.path.toList <+: stripped (c.path ++ rest).toList := by
    by_cases he : rest = ""
    · simp [he]
    · have htext : (c.path ++ rest).toList ≠ [] := by simpa using hne
      have hlast : (c.path ++ rest).toList.getLast? ≠ some '/' := by
        rw [String.toList_append, List.getLast?_append_of_ne_nil _ (by simpa using he)]
        exact hrest
      rw [(stripped_slash _ htext hlast).2, String.toList_append]
      exact (stripped_start _).trans (List.prefix_append _ _)
  have hjoin := join_start (dirname (join (c.path ++ rest) name)) target hrelative
  rw [hdirname] at hjoin
  have hcwd : isabs w.getcwd = true := by simp [isabs, Host.getcwd]
  have hiff := abspath_start w.getcwd c.path _ hcwd hpath (hstart.trans hjoin)
  rw [Bool.eq_iff_iff, absoluteText, startswith_iff, startswith_iff]
  exact hiff

theorem charmFiles_mem (file : String × Leaf) (h : file ∈ c.charmFiles w) :
    c.path ≠ "" ∧ w.isdir file.1 file.2 = false ∧
      ∃ dirpath name, c.Below dirpath ∧ IsFileName name ∧ file.1 = join dirpath name := by
  obtain ⟨visit, hvisit, hfile⟩ := List.mem_flatMap.mp h
  have hpath : c.path ≠ "" := by
    intro he
    simp [walk, Host.leads, FileSystem.leads, he] at hvisit
  have htop : c.Below c.path := ⟨"", by simp⟩
  obtain ⟨hbelow, inside, hinside, hnames⟩ :=
    walk_mem c.Below c.below_join c.path htop visit hvisit
  obtain ⟨entry, hentry, rfl⟩ := List.mem_map.mp hfile
  have hmem := List.mem_of_mem_filter hentry
  rw [hnames] at hmem
  obtain ⟨hname, hdir⟩ := filenames_mem visit.dirpath inside hinside entry hmem
  exact ⟨hpath, hdir, visit.dirpath, entry.1, hbelow, hname, rfl⟩

/-- The text of the link is refused. -/
def refuses (file : String × Leaf) : Bool :=
  (linkOf file).any fun link => isabs link.2 || !c.absoluteText w

theorem checkType_regular (file : String × Leaf) (h : isRegular w file = true) :
    c.checkType w file.1 file.2 = .ok () := by
  unfold isRegular at h
  unfold checkType
  split at h
  · rename_i hstat
    simp [hstat]
  · simp at h

theorem checkFile_accepted (file : String × Leaf) (hmem : file ∈ c.charmFiles w)
    (hregular : isRegular w file = true) (h : c.refuses w file = false) :
    errorOf (c.checkFile w file) = none := by
  have htype := c.checkType_regular w file hregular
  obtain ⟨path, l⟩ := file
  cases l with
  | file perm content => simp [checkFile, htype, errorOf, bind, Except.bind, pure, Except.pure]
  | special => simp [checkFile, htype, errorOf, bind, Except.bind, pure, Except.pure]
  | link target =>
    obtain ⟨hpath, -, dirpath, name, hbelow, hname, rfl⟩ := c.charmFiles_mem w _ hmem
    have hor : isabs target = false ∧ c.absoluteText w = true := by simpa [refuses, linkOf] using h
    have htext := c.checkLink_text w dirpath name target hpath hbelow hname hor.1
    simp [checkFile, htype, checkLink, hor.1, htext, hor.2, errorOf, bind, Except.bind]

theorem checkFile_refused (file : String × Leaf) (hmem : file ∈ c.charmFiles w)
    (hregular : isRegular w file = true) (h : c.refuses w file = true) :
    ∃ message, message ≠ "Invalid file type for a charm" ∧
      errorOf (c.checkFile w file) = some (c.invalid file.1 message) := by
  have htype := c.checkType_regular w file hregular
  obtain ⟨path, l⟩ := file
  cases l with
  | file perm content => simp [refuses, linkOf] at h
  | special => simp [refuses, linkOf] at h
  | link target =>
    obtain ⟨hpath, -, dirpath, name, hbelow, hname, rfl⟩ := c.charmFiles_mem w _ hmem
    cases habs : isabs target with
    | true =>
      refine ⟨"Absolute links are invalid", by decide, ?_⟩
      simp [checkFile, htype, checkLink, habs, bind, Except.bind]
    | false =>
      have htext := c.checkLink_text w dirpath name target hpath hbelow hname habs
      have hno : c.absoluteText w = false := by simpa [refuses, linkOf, habs] using h
      refine ⟨"Only internal symlinks are allowed", by decide, ?_⟩
      simp [checkFile, htype, checkLink, habs, htext, hno, bind, Except.bind]

theorem checkFile_other (file : String × Leaf) (hmem : file ∈ c.charmFiles w)
    (h : isRegular w file = false) :
    errorOf (c.checkFile w file) =
      some (if w.stat file.1 file.2 = none then .osError
        else c.invalid file.1 "Invalid file type for a charm") := by
  obtain ⟨-, hdir, -⟩ := c.charmFiles_mem w file hmem
  unfold Host.isdir at hdir
  unfold isRegular at h
  unfold checkFile checkType
  cases hstat : w.stat file.1 file.2 with
  | none => simp [bind, Except.bind]
  | some node =>
    cases node with
    | directory perm => simp [hstat] at hdir
    | leaf l =>
      cases l with
      | file perm content => simp [hstat] at h
      | link target => simp [bind, Except.bind]
      | special => simp [bind, Except.bind]

theorem checked_mem (file : String × Leaf)
    (h : file ∈ (c.charmFiles w).takeWhile (isRegular w)) :
    file ∈ c.charmFiles w ∧ isRegular w file = true :=
  ⟨(List.takeWhile_prefix _).subset h, List.mem_takeWhile_imp h⟩

/-- A link that is refused before the first file that is no regular file ends the archive. -/
theorem makeArchive_refused (file : String × Leaf)
    (hmem : file ∈ (c.charmFiles w).takeWhile (isRegular w)) (h : c.refuses w file = true) :
    ∃ path message, message ≠ "Invalid file type for a charm" ∧
      c.makeArchive w = .error (c.invalid path message) := by
  have hfound : ((c.charmFiles w).takeWhile (isRegular w)).findSome?
      (fun file => errorOf (c.checkFile w file)) ≠ none := by
    intro hnone
    obtain ⟨hin, hregular⟩ := c.checked_mem w file hmem
    obtain ⟨message, -, hmessage⟩ := c.checkFile_refused w file hin hregular h
    have hno := List.findSome?_eq_none_iff.mp hnone file hmem
    simp [hmessage] at hno
  obtain ⟨e, he⟩ := Option.ne_none_iff_exists'.mp hfound
  obtain ⟨first, hfirst, hcheck⟩ := List.exists_of_findSome?_eq_some he
  obtain ⟨hin, hregular⟩ := c.checked_mem w first hfirst
  cases hrefuses : c.refuses w first with
  | false =>
    have hok := c.checkFile_accepted w first hin hregular hrefuses
    simp [hok] at hcheck
  | true =>
    obtain ⟨message, hne, hmessage⟩ := c.checkFile_refused w first hin hregular hrefuses
    have hsame : e = c.invalid first.1 message := Option.some.inj (hcheck.symm.trans hmessage)
    refine ⟨first.1, message, hne, ?_⟩
    rw [← errorOf_eq_some, makeArchive_error, ← hsame,
      ← List.takeWhile_append_dropWhile (p := isRegular w) (l := c.charmFiles w),
      List.findSome?_append, he]
    rfl

/-- With no such link, the archive ends at that file, if at all. -/
theorem makeArchive_accepted
    (h : ∀ file ∈ (c.charmFiles w).takeWhile (isRegular w), c.refuses w file = false) :
    c.AcceptsLinks w ∧ (c.RaisesInvalid w ↔ c.SpecialFirst w) := by
  have hnone : ((c.charmFiles w).takeWhile (isRegular w)).findSome?
      (fun file => errorOf (c.checkFile w file)) = none := by
    refine List.findSome?_eq_none_iff.mpr fun file hfile => ?_
    obtain ⟨hin, hregular⟩ := c.checked_mem w file hfile
    exact c.checkFile_accepted w file hin hregular (h file hfile)
  have herror := c.makeArchive_error w
  rw [findSome?_takeWhile _ _ _ hnone] at herror
  unfold AcceptsLinks RaisesInvalid SpecialFirst
  cases hrest : (c.charmFiles w).dropWhile (isRegular w) with
  | nil =>
    rw [hrest] at herror
    simp [← errorOf_eq_some, herror]
  | cons file rest =>
    have hin : file ∈ c.charmFiles w := (List.dropWhile_suffix _).subset (by rw [hrest]; simp)
    have hirregular : isRegular w file = false := by
      have hhead := List.head?_dropWhile_not (isRegular w) (c.charmFiles w)
      rwa [hrest] at hhead
    have hcheck := c.checkFile_other w file hin hirregular
    rw [hrest, List.findSome?_cons, hcheck] at herror
    by_cases hstat : w.stat file.1 file.2 = none
    · simp [← errorOf_eq_some, herror, hstat, invalid]
    · have hend : c.makeArchive w =
          .error (c.invalid file.1 "Invalid file type for a charm") := by
        rw [← errorOf_eq_some, herror]
        simp [hstat]
      have hexamined : ¬ none = w.stat file.1 file.2 := fun he => hstat he.symm
      simp [hend, hexamined, invalid, eq_comm]

/-- When the links to regular files are checked as they should be: in a charm whose path starts with
its absolute path, if no link is external, or an absolute link or a special file ends the archive;
in another, if there are no links to check and none is external, or one is external and the archive
ends at a link or at a special file. -/
def LinksDecided : Prop :=
  if c.absoluteText w = true then
    (∀ link ∈ c.regularLinks w, c.Internal w link) ∨
      (∃ link ∈ c.checkedLinks w, isabs link.2 = true) ∨ c.SpecialFirst w
  else
    ((∀ link ∈ c.regularLinks w, c.Internal w link) ∧ c.checkedLinks w = []) ∨
      ((∃ link ∈ c.regularLinks w, ¬ c.Internal w link) ∧
        (c.checkedLinks w ≠ [] ∨ c.SpecialFirst w))

theorem refuses_iff (file : String × Leaf) :
    c.refuses w file = true ↔
      ∃ link, linkOf file = some link ∧ (isabs link.2 = true ∨ c.absoluteText w = false) := by
  cases hlink : linkOf file with
  | none => simp [refuses, hlink]
  | some link => simp [refuses, hlink]

theorem refused_iff :
    (∃ file ∈ (c.charmFiles w).takeWhile (isRegular w), c.refuses w file = true) ↔
      ∃ link ∈ c.checkedLinks w, isabs link.2 = true ∨ c.absoluteText w = false := by
  simp only [checkedLinks, List.mem_filterMap, refuses_iff]
  constructor
  · rintro ⟨file, hfile, link, hlink, hor⟩
    exact ⟨link, ⟨file, hfile, hlink⟩, hor⟩
  · rintro ⟨link, ⟨file, hfile, hlink⟩, hor⟩
    exact ⟨file, hfile, link, hlink, hor⟩

theorem checkedLinks_subset : c.checkedLinks w ⊆ c.regularLinks w := by
  intro link hlink
  obtain ⟨file, hfile, hof⟩ := List.mem_filterMap.mp hlink
  exact List.mem_filterMap.mpr ⟨file, List.mem_filter.mpr (c.checked_mem w file hfile), hof⟩

theorem checksLinks_iff : c.ChecksLinks w ↔ c.LinksDecided w := by
  have hrefused := c.refused_iff w
  have hinternal : (¬ ∀ link ∈ c.regularLinks w, c.Internal w link) ↔
      ∃ link ∈ c.regularLinks w, ¬ c.Internal w link := by
    simp
  have habsolute (h : ∀ link ∈ c.regularLinks w, c.Internal w link) :
      ¬ ∃ link ∈ c.checkedLinks w, isabs link.2 = true := by
    rintro ⟨link, hlink, habs⟩
    have hrelative := (h link (c.checkedLinks_subset w hlink)).1
    simp [habs] at hrelative
  have hcases : (¬ c.AcceptsLinks w ∧ c.RaisesInvalid w ∧
      ∃ link ∈ c.checkedLinks w, isabs link.2 = true ∨ c.absoluteText w = false) ∨
      (c.AcceptsLinks w ∧ (c.RaisesInvalid w ↔ c.SpecialFirst w) ∧
      ¬ ∃ link ∈ c.checkedLinks w, isabs link.2 = true ∨ c.absoluteText w = false) := by
    rw [← hrefused]
    by_cases h : ∃ file ∈ (c.charmFiles w).takeWhile (isRegular w), c.refuses w file = true
    · obtain ⟨file, hfile, hrefuses⟩ := h
      obtain ⟨path, message, hne, hmessage⟩ := c.makeArchive_refused w file hfile hrefuses
      exact Or.inl ⟨fun haccepts => hne (haccepts path message hmessage),
        ⟨path, message, hmessage⟩, file, hfile, hrefuses⟩
    · have hno : ∀ file ∈ (c.charmFiles w).takeWhile (isRegular w), c.refuses w file = false := by
        simpa using h
      obtain ⟨haccepts, hraises⟩ := c.makeArchive_accepted w hno
      exact Or.inr ⟨haccepts, hraises, h⟩
  unfold ChecksLinks LinksDecided
  rw [← hinternal]
  cases htext : c.absoluteText w with
  | true =>
    simp only [htext, Bool.true_eq_false, or_false] at hcases
    rw [if_pos rfl]
    by_cases hall : ∀ link ∈ c.regularLinks w, c.Internal w link
    · obtain ⟨-, -, hlink⟩ | ⟨haccepts, -, -⟩ := hcases
      · exact absurd hlink (habsolute hall)
      · exact iff_of_true ⟨fun _ => haccepts, fun h => absurd hall h⟩ (Or.inl hall)
    · obtain ⟨-, hraises, hlink⟩ | ⟨-, hraises, hlink⟩ := hcases
      · exact iff_of_true ⟨fun h => absurd h hall, fun _ => hraises⟩ (Or.inr (Or.inl hlink))
      · rw [hraises]
        simp only [hall, hlink, false_implies, not_false_eq_true, true_implies, true_and, false_or]
  | false =>
    have hsome : (∃ link ∈ c.checkedLinks w, isabs link.2 = true ∨ c.absoluteText w = false) ↔
        c.checkedLinks w ≠ [] := by
      simp [htext, List.eq_nil_iff_forall_not_mem]
    rw [hsome] at hcases
    rw [if_neg (by simp)]
    by_cases hall : ∀ link ∈ c.regularLinks w, c.Internal w link
    · obtain ⟨hno, -, hlink⟩ | ⟨haccepts, -, hlink⟩ := hcases
      · exact iff_of_false (fun h => hno (h.1 hall))
          (fun h => h.elim (fun hc => hlink hc.2) fun hc => hc.1 hall)
      · exact iff_of_true ⟨fun _ => haccepts, fun h => absurd hall h⟩
          (Or.inl ⟨hall, not_not.mp hlink⟩)
    · obtain ⟨-, hraises, hlink⟩ | ⟨-, hraises, hlink⟩ := hcases
      · exact iff_of_true ⟨fun h => absurd h hall, fun _ => hraises⟩
          (Or.inr ⟨hall, Or.inl hlink⟩)
      · rw [hraises]
        simp only [hall, hlink, false_implies, not_false_eq_true, true_implies, true_and,
          false_and, false_or]

end CharmDirectory

/-- A machine with a charm in `/srv/charm`, and a link in it to `/etc/passwd`. -/
def leakingHost : Host where
  root := .directory "etc" 0o755 (.leaf "passwd" (.file 0o644 "root:x:0:0") .nil)
    (.directory "srv" 0o755
      (.directory "charm" 0o755 (.leaf "users" (.link "../../etc/passwd") .nil) .nil) .nil)
  wellFormed := by decide
  cwd := []

/-- A relative link that leaves the charm is archived. -/
theorem external_link_accepted :
    ¬ ∀ (c : CharmDirectory) (w : Host), c.ChecksLinks w := by
  intro h
  have hlink : ("/srv/charm/users", "../../etc/passwd") ∈
      (CharmDirectory.mk "/srv/charm" "users").regularLinks leakingHost := by decide
  have htop : leakingHost.leads "/srv/charm" = some ["srv", "charm"] := by decide
  have hplace : leakingHost.follows "/srv/charm/users" "../../etc/passwd" =
      some ["etc", "passwd"] := by decide
  have hexternal : ¬ (CharmDirectory.mk "/srv/charm" "users").Internal leakingHost
      ("/srv/charm/users", "../../etc/passwd") := by
    rintro ⟨-, top, place, hleads, hfollows, hprefix⟩
    obtain rfl := Option.some.inj (htop.symm.trans hleads)
    obtain rfl := Option.some.inj (hplace.symm.trans hfollows)
    exact absurd hprefix (by decide)
  obtain ⟨path, message, hraises⟩ := (h _ leakingHost).2 ⟨_, hlink, hexternal⟩
  have hok : (CharmDirectory.mk "/srv/charm" "users").makeArchive leakingHost =
      .ok [writeSymlink "../../etc/passwd" "users"] := by decide
  simp [hok] at hraises

end Juju.Charm
