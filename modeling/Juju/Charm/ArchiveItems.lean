import Juju.Base.Returns
import Juju.Charm.ArchiveLinks
import Juju.Charm.CharmBundle
import Juju.Lib.Entries

namespace Juju.Charm
open Juju.Base Juju.Lib CharmDirectory

/-- What is left out of a charm: `build`, and the names with a dot before them, at its top. -/
def ignored (rel : Location) : Bool :=
  rel.head?.any fun name => name = "build" || startswith name "."

/-- A directory of the charm: its place, its permissions, and what it holds. -/
structure Place where
  rel : Location
  perm : Perm
  inside : Listing

/-- The directories below a directory, in the order of the walk. -/
def placesBelow (rel : Location) : Listing → List Place
  | .nil => []
  | .leaf _ _ rest => placesBelow rel rest
  | .directory name perm inside rest =>
    ⟨rel ++ [name], perm, inside⟩ :: placesBelow (rel ++ [name]) inside ++ placesBelow rel rest

section items

variable (w : Host) (top : String)

def filesIn (rel : Location) (l : Listing) : List (Location × Node) :=
  (filenames w (joinPath (top :: rel)) l).map fun file => (rel ++ [file.1], .leaf file.2)

/-- What the archive holds of one directory. -/
def placeItems (place : Place) : List (Location × Node) :=
  (if place.rel = [] then [] else [(place.rel, .directory place.perm)]) ++
    filesIn w top place.rel place.inside

/-- What the walk finds in the charm, in its order. -/
def walkItems (perm : Perm) (l : Listing) : List (Location × Node) :=
  (⟨[], perm, l⟩ :: placesBelow [] l).flatMap (placeItems w top)

end items

section texts

variable {rel : Location}

theorem ignore_joinPath (hrel : ∀ name ∈ rel, IsFileName name) :
    ignore (joinPath rel) = ignored rel := by
  cases rel with
  | nil => decide
  | cons first rest =>
    have hfirst := (hrel first (by simp)).1
    have hsplit := splitPath_rel (List.cons_ne_nil first rest) hrel
    obtain ⟨more, hmore, hor⟩ := joinPath_cons first rest
    have hbuild : (joinPath (first :: rest) = "build" ∨
        startswith (joinPath (first :: rest)) "build/" = true) ↔ first = "build" := by
      constructor
      · rintro (h | h)
        · rw [h] at hsplit
          exact (List.cons.inj hsplit).1.symm
        · obtain ⟨tail, htail⟩ := (startswith_iff _ _).mp h
          have hparts := List.splitOn_append_cons_self (a := '/') "build".toList tail
          rw [splitPath, ← htail, show "build/".toList = "build".toList ++ ['/'] from rfl,
            List.append_assoc, List.singleton_append, hparts] at hsplit
          exact (List.cons.inj hsplit).1.symm
      · rintro rfl
        rcases hor with ⟨rfl, -⟩ | ⟨-, rfl⟩
        · exact Or.inl rfl
        · refine Or.inr ((startswith_iff _ _).mpr ?_)
          rw [hmore, String.toList_append, String.toList_append, ← List.append_assoc]
          exact List.prefix_append _ _
    have hdot : startswith (joinPath (first :: rest)) "." = startswith first "." := by
      obtain ⟨c, text, hc⟩ := List.exists_cons_of_ne_nil (l := first.toList)
        (by simpa using hfirst.1)
      rw [hmore]
      simp [startswith, hc, List.isPrefixOf]
    rw [Bool.eq_iff_iff, ignore, hdot]
    simp only [Bool.or_eq_true, decide_eq_true_eq, hbuild, ignored, List.head?_cons,
      Option.any_some]

theorem arcname_joinPath (hne : rel ≠ []) (hrel : ∀ name ∈ rel, IsFileName name) :
    arcname (joinPath rel) = joinPath rel := by
  obtain ⟨first, rest, rfl⟩ := List.exists_cons_of_ne_nil hne
  have hfirst := (hrel first (by simp)).1
  have hhead := joinPath_head first rest hfirst.1
  have habs := nodeName_head first hfirst
  rw [arcname, normpath_names _ hne hrel]
  cases htext : (joinPath (first :: rest)).toList with
  | nil => exact String.toList_injective (by simp [htext])
  | cons c text =>
    have hc : c ≠ '/' := by
      rw [isabs, ← hhead, htext] at habs
      simpa using habs
    rw [List.dropWhile_cons_of_neg (by simpa using hc), ← htext, String.ofList_toList]

theorem relativePath_joinPath (c : CharmDirectory) :
    c.relativePath (joinPath (c.path :: rel)) = joinPath rel := by
  apply String.toList_injective
  obtain ⟨more, hmore, ⟨rfl, rfl⟩ | ⟨-, rfl⟩⟩ := joinPath_cons c.path rel
  · simp [CharmDirectory.relativePath, joinPath, String.length_toList]
  · rw [CharmDirectory.relativePath, hmore, String.toList_ofList, String.toList_append,
      ← List.drop_drop, List.drop_left' String.length_toList]
    simp

end texts

/-- The entries are those of the items that are not left out, none of which is a special file. -/
def Encodes (infos : List ZipInfo) (l : List (Location × Node)) : Prop :=
  infos = (l.filter fun item => !ignored item.1).map encode ∧
    ∀ item ∈ l, ignored item.1 = false → item.2 ≠ .leaf .special

theorem encodes_append (infos infos' : List ZipInfo) (l l' : List (Location × Node))
    (h : Encodes infos l) (h' : Encodes infos' l') : Encodes (infos ++ infos') (l ++ l') := by
  refine ⟨by rw [h.1, h'.1, List.filter_append, List.map_append], fun item hitem => ?_⟩
  cases List.mem_append.mp hitem with
  | inl hin => exact h.2 item hin
  | inr hin => exact h'.2 item hin

theorem mapM_encodes {α ε : Type} (f : α → Except ε (List ZipInfo))
    (g : α → List (Location × Node)) (l : List α) (parts : List (List ZipInfo))
    (hf : ∀ a ∈ l, ∀ infos, f a = .ok infos → Encodes infos (g a)) (h : l.mapM f = .ok parts) :
    Encodes parts.flatten (l.flatMap g) := by
  have hall := (Entries.mapM_ok_iff f l parts).mp h
  clear h
  induction hall with
  | nil => simp [Encodes]
  | cons ha _ ih =>
    rw [List.flatten_cons, List.flatMap_cons]
    exact encodes_append _ _ _ _ (hf _ (by simp) _ ha)
      (ih fun a hin => hf a (List.mem_cons_of_mem _ hin))

section archive

variable {c : CharmDirectory} {w : Host} (hlast : c.path ≠ "" ∧ c.path.toList.getLast? ≠ some '/')
include hlast

theorem join_charm (rel : Location) (name : String) (hrel : ∀ other ∈ rel, IsFileName other)
    (hname : IsFileName name) :
    join (joinPath (c.path :: rel)) name = joinPath (c.path :: (rel ++ [name])) := by
  refine join_joinPath _ name (fun _ => ?_) hname.1
  cases rel using List.reverseRecOn with
  | nil => exact hlast
  | append_singleton front last =>
    have hnode := (hrel last (by simp)).1
    exact joinPath_last (c.path :: front) last hnode.1 (nodeName_last last hnode)

omit hlast in
theorem join_relative (rel : Location) (name : String) (hrel : ∀ other ∈ rel, IsFileName other)
    (hname : IsFileName name) : join (joinPath rel) name = joinPath (rel ++ [name]) := by
  refine join_joinPath _ name (fun hne => ?_) hname.1
  obtain ⟨front, last, rfl⟩ := (List.eq_nil_or_concat' rel).resolve_left hne
  have hnode := (hrel last (by simp)).1
  exact joinPath_last front last hnode.1 (nodeName_last last hnode)

omit hlast in
/-- A file that the archive takes is left out or encoded, and is no special file. -/
theorem archiveFile_ok (rel : Location) (file : String × Leaf)
    (hrel : ∀ other ∈ rel, IsFileName other) (hname : IsFileName file.1) (infos : List ZipInfo)
    (h : c.archiveFile w (joinPath (c.path :: rel)) file = .ok infos) :
    Encodes infos [(rel ++ [file.1], .leaf file.2)] := by
  have hnames : ∀ other ∈ rel ++ [file.1], IsFileName other := by
    intro other hother
    cases List.mem_append.mp hother with
    | inl hin => exact hrel other hin
    | inr hin => exact List.mem_singleton.mp hin ▸ hname
  have hignore := ignore_joinPath hnames
  have harc := arcname_joinPath (by simp) hnames
  have hjoin := join_relative rel file.1 hrel hname
  simp only [CharmDirectory.archiveFile, relativePath_joinPath, hjoin, hignore] at h
  cases hout : ignored (rel ++ [file.1]) with
  | true =>
    rw [hout, if_pos rfl, Except.ok.injEq] at h
    simp [Encodes, hout, ← h]
  | false =>
    rw [hout, if_neg (by simp)] at h
    obtain ⟨u, htype, h⟩ := (except_bind_eq_ok _ _ _).mp h
    obtain ⟨name, l⟩ := file
    cases l with
    | file perm content =>
      have hinfo := Except.ok.inj h
      simp [Encodes, hout, ← hinfo, zipFile, harc, encode]
    | link target =>
      obtain ⟨u, -, h⟩ := (except_bind_eq_ok _ _ _).mp h
      have hinfo := Except.ok.inj h
      simp [Encodes, hout, ← hinfo, encode]
    | special =>
      simp [CharmDirectory.checkType, Host.stat] at htype

omit hlast in
theorem archiveDirectory_encodes (rel : Location) (perm : Perm) (files : List (String × Leaf))
    (hrel : ∀ other ∈ rel, IsFileName other) :
    Encodes (c.archiveDirectory ⟨joinPath (c.path :: rel), perm, files⟩)
      (if rel = [] then [] else [(rel, .directory perm)]) := by
  have hpath : c.relativePath (joinPath (c.path :: rel)) = joinPath rel := relativePath_joinPath c
  simp only [CharmDirectory.archiveDirectory, hpath, ignore_joinPath hrel]
  by_cases hne : rel = []
  · subst hne
    simp [Encodes, joinPath]
  · have htext : joinPath rel ≠ "" := by
      obtain ⟨first, rest, rfl⟩ := List.exists_cons_of_ne_nil hne
      exact joinPath_ne_empty first rest (hrel first (by simp)).1.1
    cases hout : ignored rel with
    | true => simp [Encodes, hne, hout]
    | false => simp [Encodes, hne, hout, htext, zipDirectory, arcname_joinPath hne hrel, encode]

/-- The visit of the walk that a directory gives. -/
def placeVisit (w : Host) (top : String) (place : Place) : Visit :=
  ⟨joinPath (top :: place.rel), place.perm, filenames w (joinPath (top :: place.rel)) place.inside⟩

omit hlast in
theorem archiveVisit_ok (place : Place) (hl : place.inside.WellFormed)
    (hrel : ∀ other ∈ place.rel, IsFileName other) (infos : List ZipInfo)
    (h : c.archiveVisit w (placeVisit w c.path place) = .ok infos) :
    Encodes infos (placeItems w c.path place) := by
  obtain ⟨parts, hparts, h⟩ := (except_bind_eq_ok _ _ _).mp h
  have hfiles : Encodes parts.flatten (filesIn w c.path place.rel place.inside) := by
    have hmapM := mapM_encodes (c.archiveFile w (joinPath (c.path :: place.rel)))
      (fun file => [(place.rel ++ [file.1], .leaf file.2)]) _ parts
      (fun file hfile => archiveFile_ok place.rel file hrel (filenames_mem _ _ hl file hfile).1)
      hparts
    rwa [filesIn, List.map_eq_flatMap]
  rw [← Except.ok.inj h]
  exact encodes_append _ _ _ _ (archiveDirectory_encodes place.rel place.perm _ hrel) hfiles

theorem walkBelow_places (rel : Location) (l : Listing) (hl : l.WellFormed)
    (hrel : ∀ other ∈ rel, IsFileName other) :
    walkBelow w (joinPath (c.path :: rel)) l =
      (placesBelow rel l).map (placeVisit w c.path) := by
  induction l generalizing rel with
  | nil => rfl
  | leaf name leaf rest ih => exact ih rel hl.2.2 hrel
  | directory name perm inside rest ihinside ih =>
    have hnames : ∀ other ∈ rel ++ [name], IsFileName other := by
      simpa [or_imp, forall_and] using ⟨hrel, hl.1⟩
    rw [walkBelow, placesBelow, join_charm hlast rel name hrel hl.1,
      ihinside (rel ++ [name]) hl.2.2.1 hnames, ih rel hl.2.2.2 hrel]
    simp [placeVisit]

omit hlast in
theorem placesBelow_mem (rel : Location) (l : Listing) (hl : l.WellFormed)
    (hrel : ∀ other ∈ rel, IsFileName other) :
    ∀ place ∈ placesBelow rel l,
      place.inside.WellFormed ∧ ∀ other ∈ place.rel, IsFileName other := by
  induction l generalizing rel with
  | nil => simp [placesBelow]
  | leaf name leaf rest ih => exact ih rel hl.2.2 hrel
  | directory name perm inside rest ihinside ih =>
    have hnames : ∀ other ∈ rel ++ [name], IsFileName other := by
      simpa [or_imp, forall_and] using ⟨hrel, hl.1⟩
    intro place hplace
    rw [placesBelow, List.cons_append, List.mem_cons, List.mem_append] at hplace
    rcases hplace with rfl | hin | hin
    · exact ⟨hl.2.2.1, hnames⟩
    · exact ihinside (rel ++ [name]) hl.2.2.1 hnames place hin
    · exact ih rel hl.2.2.2 hrel place hin

/-- An archive that is made holds what the walk finds and is not left out. -/
theorem makeArchive_encodes (loc : Location) (perm : Perm) (inside : Listing)
    (hleads : w.leads c.path = some loc) (hdirectory : w.fs loc = some (.directory perm))
    (hinside : w.root.listdir loc = some inside) (infos : List ZipInfo)
    (h : c.makeArchive w = .ok infos) : Encodes infos (walkItems w c.path perm inside) := by
  have hl := Listing.listdir_wellFormed _ _ _ w.wellFormed hinside
  have hwalk : walk w c.path = ((⟨[], perm, inside⟩ :: placesBelow [] inside) : List Place).map
      (placeVisit w c.path) := by
    have hbelow := walkBelow_places hlast (w := w) [] inside hl (by simp)
    rw [List.map_cons, ← hbelow]
    simp [walk, hleads, hdirectory, hinside, placeVisit, joinPath]
  obtain ⟨parts, hparts, h⟩ := (except_bind_eq_ok _ _ _).mp h
  rw [hwalk, List.mapM_map] at hparts
  rw [← Except.ok.inj h]
  refine mapM_encodes _ _ _ parts (fun place hplace part hpart => ?_) hparts
  have hok : place.inside.WellFormed ∧ ∀ other ∈ place.rel, IsFileName other := by
    cases List.mem_cons.mp hplace with
    | inl he => exact he ▸ ⟨hl, by simp⟩
    | inr hin => exact placesBelow_mem [] inside hl (by simp) place hin
  exact archiveVisit_ok place hok.1 hok.2 part hpart

end archive

end Juju.Charm
