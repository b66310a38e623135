import Juju.Charm.ArchiveItems

namespace Juju.Charm
open Juju.Base Juju.Lib

/-- Each item comes after the directory that it stands in, or that directory is known. -/
def Grounded (known : Location → Prop) : List (Location × Node) → Prop
  | [] => True
  | item :: rest =>
    known item.1.dropLast ∧
      Grounded (fun q => known q ∨ q = item.1 ∧ ∃ perm, item.2 = .directory perm) rest

section grounded

variable {known known' : Location → Prop} {l l' : List (Location × Node)}

theorem grounded_mono (hmono : ∀ q, known q → known' q) (h : Grounded known l) :
    Grounded known' l := by
  induction l generalizing known known' with
  | nil => exact h
  | cons item rest ih => exact ⟨hmono _ h.1, ih (fun q => Or.imp_left (hmono q)) h.2⟩

theorem grounded_append (h : Grounded known l) (h' : Grounded known l') :
    Grounded known (l ++ l') := by
  induction l generalizing known with
  | nil => exact h'
  | cons item rest ih => exact ⟨h.1, ih h.2 (grounded_mono (fun _ => Or.inl) h')⟩

theorem ignored_dropLast (rel : Location) (h : ignored rel = false) :
    ignored rel.dropLast = false := by
  cases rel with
  | nil => exact h
  | cons first rest =>
    cases rest with
    | nil => rfl
    | cons next rest => simpa [ignored] using h

theorem grounded_filter (h : Grounded known l) :
    Grounded (fun q => known q ∧ ignored q = false) (l.filter fun item => !ignored item.1) := by
  induction l generalizing known with
  | nil => trivial
  | cons item rest ih =>
    have hrest := ih h.2
    cases hout : ignored item.1 with
    | true =>
      simp only [List.filter_cons, hout, Bool.not_true, Bool.false_eq_true, if_false]
      refine grounded_mono (fun q hq => ?_) hrest
      rcases hq with ⟨hknown | ⟨rfl, -⟩, hq⟩
      · exact ⟨hknown, hq⟩
      · simp [hout] at hq
    | false =>
      simp only [List.filter_cons, hout, Bool.not_false, if_true]
      refine ⟨⟨h.1, ignored_dropLast _ hout⟩, grounded_mono (fun q hq => ?_) hrest⟩
      rcases hq with ⟨hknown | hitem, hq⟩
      · exact Or.inl ⟨hknown, hq⟩
      · exact Or.inr hitem

end grounded

section tree

variable (w : Host) (top : String)

/-- What the walk finds in a directory and below it. -/
def content (rel : Location) (l : Listing) : List (Location × Node) :=
  filesIn w top rel l ++ (placesBelow rel l).flatMap (placeItems w top)

theorem walkItems_eq (perm : Perm) (l : Listing) :
    walkItems w top perm l = content w top [] l := by
  simp [walkItems, content, placeItems]

theorem content_directory (rel : Location) (name : String) (perm : Perm) (inside rest : Listing) :
    (content w top rel (.directory name perm inside rest)).Perm
      ((rel ++ [name], .directory perm) :: content w top (rel ++ [name]) inside ++
        content w top rel rest) := by
  have hsplit : content w top rel (.directory name perm inside rest) =
      filesIn w top rel rest ++ ((rel ++ [name], .directory perm) ::
        content w top (rel ++ [name]) inside ++
          (placesBelow rel rest).flatMap (placeItems w top)) := by
    simp [content, placesBelow, placeItems, filesIn, filenames]
  rw [hsplit]
  exact List.perm_append_comm_assoc _ _ _

variable {w top} (htop : top ≠ "" ∧ top.toList.getLast? ≠ some '/')
include htop

theorem content_leaf (rel : Location) (name : String) (l : Leaf) (rest : Listing)
    (hrel : ∀ other ∈ rel, IsFileName other) (hname : IsFileName name) :
    content w top rel (.leaf name l rest) =
      if w.isdir (joinPath (top :: (rel ++ [name]))) l then content w top rel rest
      else (rel ++ [name], .leaf l) :: content w top rel rest := by
  have hjoin := join_charm (c := ⟨top, ""⟩) htop rel name hrel hname
  simp only at hjoin
  unfold content filesIn
  rw [filenames, hjoin]
  split
  · rfl
  · rfl

/-- What the walk finds is in the directory, under valid names. -/
theorem content_sound (rel : Location) (l : Listing) (hl : l.WellFormed)
    (hrel : ∀ other ∈ rel, IsFileName other) :
    ∀ item ∈ content w top rel l, ∃ name q, item.1 = rel ++ name :: q ∧ name ∈ l.names ∧
      l.find (name :: q) = some item.2 ∧ (∀ other ∈ name :: q, IsFileName other) ∧
      ∀ leaf, item.2 = .leaf leaf → w.isdir (joinPath (top :: item.1)) leaf = false := by
  induction l generalizing rel with
  | nil => simp [content, placesBelow, filesIn, filenames]
  | leaf name leaf rest ih =>
    intro item hitem
    have hrest (hin : item ∈ content w top rel rest) : ∃ other q, item.1 = rel ++ other :: q ∧
        other ∈ (Listing.leaf name leaf rest).names ∧
        (Listing.leaf name leaf rest).find (other :: q) = some item.2 ∧
        (∀ n ∈ other :: q, IsFileName n) ∧
        ∀ l, item.2 = .leaf l → w.isdir (joinPath (top :: item.1)) l = false := by
      obtain ⟨other, q, hitem, hmem, hfind, hvalid⟩ := ih rel hl.2.2 hrel item hin
      have hne : other ≠ name := fun he => hl.2.1 (he ▸ hmem)
      exact ⟨other, q, hitem, List.mem_cons_of_mem _ hmem, by simp [Listing.find, hne, hfind],
        hvalid⟩
    rw [content_leaf htop rel name leaf rest hrel hl.1] at hitem
    split at hitem
    · exact hrest hitem
    · rename_i hdir
      rcases List.mem_cons.mp hitem with rfl | hin
      · exact ⟨name, [], rfl, by simp [Listing.names], by simp [Listing.find],
          by simpa using hl.1, by simpa using hdir⟩
      · exact hrest hin
  | directory name perm inside rest ihinside ih =>
    have hnames : ∀ other ∈ rel ++ [name], IsFileName other := by
      simpa [or_imp, forall_and] using ⟨hrel, hl.1⟩
    intro item hitem
    rw [(content_directory w top rel name perm inside rest).mem_iff, List.cons_append,
      List.mem_cons, List.mem_append] at hitem
    rcases hitem with rfl | hin | hin
    · exact ⟨name, [], rfl, by simp [Listing.names], by simp [Listing.find],
        by simpa using hl.1, by simp⟩
    · obtain ⟨other, q, hitem, -, hfind, hvalid, hdir⟩ :=
        ihinside (rel ++ [name]) hl.2.2.1 hnames item hin
      refine ⟨name, other :: q, by simp [hitem], by simp [Listing.names],
        by simp [Listing.find, hfind], ?_, hdir⟩
      simpa [hl.1] using hvalid
    · obtain ⟨other, q, hitem, hmem, hfind, hvalid⟩ := ih rel hl.2.2.2 hrel item hin
      have hne : name ≠ other := fun he => hl.2.1 (he ▸ hmem)
      exact ⟨other, q, hitem, List.mem_cons_of_mem _ hmem,
        by simp [Listing.find, hne.symm, hfind], hvalid⟩

/-- What is in the directory is found, but for what is taken for a directory and is none. -/
theorem content_complete (rel : Location) (l : Listing) (hl : l.WellFormed)
    (hrel : ∀ other ∈ rel, IsFileName other) (q : Location) (node : Node)
    (h : l.find q = some node) :
    (rel ++ q, node) ∈ content w top rel l ∨
      ∃ leaf, node = .leaf leaf ∧ w.isdir (joinPath (top :: (rel ++ q))) leaf = true := by
  induction l generalizing rel q with
  | nil => simp [Listing.find] at h
  | leaf name leaf rest ih =>
    rw [content_leaf htop rel name leaf rest hrel hl.1]
    rw [Listing.find] at h
    by_cases hq : q = [name]
    · rw [if_pos hq, Option.some.injEq] at h
      subst hq h
      cases hdir : w.isdir (joinPath (top :: (rel ++ [name]))) leaf with
      | true => exact Or.inr ⟨leaf, rfl, hdir⟩
      | false => simp
    · rw [if_neg hq] at h
      refine (ih rel hl.2.2 hrel q h).imp_left fun hin => ?_
      split
      · exact hin
      · exact List.mem_cons_of_mem _ hin
  | directory name perm inside rest ihinside ih =>
    have hnames : ∀ other ∈ rel ++ [name], IsFileName other := by
      simpa [or_imp, forall_and] using ⟨hrel, hl.1⟩
    rw [(content_directory w top rel name perm inside rest).mem_iff, List.cons_append,
      List.mem_cons, List.mem_append]
    by_cases hhead : q.head? = some name
    · obtain ⟨tail, rfl⟩ := List.head?_eq_some_iff.mp hhead
      by_cases htail : tail = []
      · subst htail
        rw [Listing.find_directory, Option.some.injEq] at h
        exact Or.inl (Or.inl (by rw [h]))
      · rw [Listing.find_inside _ _ _ _ _ htail] at h
        have hin := ihinside (rel ++ [name]) hl.2.2.1 hnames tail h
        simp only [List.append_assoc, List.singleton_append] at hin
        exact hin.imp_left fun hin => Or.inr (Or.inl hin)
    · rw [Listing.find_beside _ _ _ _ _ hhead] at h
      exact (ih rel hl.2.2.2 hrel q h).imp_left fun hin => Or.inr (Or.inr hin)

theorem content_nodup (rel : Location) (l : Listing) (hl : l.WellFormed)
    (hrel : ∀ other ∈ rel, IsFileName other) :
    ((content w top rel l).map Prod.fst).Nodup := by
  induction l generalizing rel with
  | nil => simp [content, placesBelow, filesIn, filenames]
  | leaf name leaf rest ih =>
    rw [content_leaf htop rel name leaf rest hrel hl.1]
    split
    · exact ih rel hl.2.2 hrel
    · refine List.nodup_cons.mpr ⟨?_, ih rel hl.2.2 hrel⟩
      intro hin
      obtain ⟨item, hitem, he⟩ := List.mem_map.mp hin
      obtain ⟨other, q, hother, hmem, -⟩ := content_sound htop rel rest hl.2.2 hrel item hitem
      have hcons := List.append_cancel_left (he.symm.trans hother)
      exact hl.2.1 ((List.cons.inj hcons).1 ▸ hmem)
  | directory name perm inside rest ihinside ih =>
    have hnames : ∀ other ∈ rel ++ [name], IsFileName other := by
      simpa [or_imp, forall_and] using ⟨hrel, hl.1⟩
    have hbelow : ∀ item ∈ (rel ++ [name], Node.directory perm) ::
        content w top (rel ++ [name]) inside, ∃ q, item.1 = rel ++ name :: q := by
      intro item hitem
      rcases List.mem_cons.mp hitem with rfl | hin
      · exact ⟨[], rfl⟩
      · obtain ⟨other, q, hother, -⟩ := content_sound htop _ inside hl.2.2.1 hnames item hin
        exact ⟨other :: q, by simp [hother]⟩
    rw [((content_directory w top rel name perm inside rest).map Prod.fst).nodup_iff,
      List.map_append, List.nodup_append]
    refine ⟨?_, ih rel hl.2.2.2 hrel, ?_⟩
    · refine List.nodup_cons.mpr ⟨?_, ihinside (rel ++ [name]) hl.2.2.1 hnames⟩
      intro hin
      obtain ⟨item, hitem, he⟩ := List.mem_map.mp hin
      obtain ⟨other, q, hother, -⟩ := content_sound htop _ inside hl.2.2.1 hnames item hitem
      have hlength := congrArg List.length (he.symm.trans hother)
      simp at hlength
    · intro loc hloc loc' hloc' he
      obtain ⟨item, hitem, rfl⟩ := List.mem_map.mp hloc
      obtain ⟨item', hitem', rfl⟩ := List.mem_map.mp hloc'
      obtain ⟨q, hq⟩ := hbelow item hitem
      obtain ⟨other, q', hq', hmem, -⟩ := content_sound htop rel rest hl.2.2.2 hrel item' hitem'
      have hcons := List.append_cancel_left (hq.symm.trans (he.trans hq'))
      exact hl.2.1 ((List.cons.inj hcons).1 ▸ hmem)

omit htop in
theorem content_grounded (known : Location → Prop) (rel : Location) (l : Listing)
    (h : known rel) :
    Grounded known (filesIn w top rel l) ∧
      Grounded known ((placesBelow rel l).flatMap (placeItems w top)) := by
  have hfiles (known : Location → Prop) (rel : Location) (files : List (String × Leaf))
      (h : known rel) :
      Grounded known (files.map fun file => (rel ++ [file.1], Node.leaf file.2)) := by
    induction files generalizing known with
    | nil => trivial
    | cons file files ih => exact ⟨by simpa using h, ih _ (Or.inl h)⟩
  refine ⟨hfiles known rel _ h, ?_⟩
  induction l generalizing known rel with
  | nil => trivial
  | leaf name leaf rest ih => exact ih known rel h
  | directory name perm inside rest ihinside ih =>
    have hinside := ihinside
      (fun q => known q ∨ q = rel ++ [name] ∧ ∃ p, Node.directory perm = .directory p)
      (rel ++ [name]) (Or.inr ⟨rfl, perm, rfl⟩)
    have hplace : Grounded known (placeItems w top ⟨rel ++ [name], perm, inside⟩ ++
        (placesBelow (rel ++ [name]) inside).flatMap (placeItems w top)) := by
      simp only [placeItems, List.append_eq_nil_iff, List.cons_ne_nil, and_false, if_false,
        List.cons_append]
      exact ⟨by simpa using h,
        grounded_append (hfiles _ _ _ (Or.inr ⟨rfl, perm, rfl⟩)) hinside⟩
    rw [placesBelow, List.cons_append, List.flatMap_cons, List.flatMap_append,
      ← List.append_assoc]
    exact grounded_append hplace (ih known rel h)

end tree

end Juju.Charm
