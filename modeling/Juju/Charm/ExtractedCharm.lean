import Juju.Charm.CharmContent

namespace Juju.Charm
open Juju.Base Juju.Lib

/-- What stands at a place in the charm, but for what the archive leaves out. -/
def charmNode (inside : Listing) (rel : Location) : Option Node :=
  if ignored rel then none else inside.find rel

/-- The files with what the charm has at its places below `top`. -/
def withCharm (inside : Listing) (top : Location) (fs : FileSystem) : FileSystem := fun loc =>
  if top <+: loc then (charmNode inside (loc.drop top.length)).or (fs loc) else fs loc

/-- What the archive holds of the charm, in its order. -/
def archived (w : Host) (top : String) (inside : Listing) : List (Location × Node) :=
  (content w top [] inside).filter fun item => !ignored item.1

/-- The directory is there, and what it holds at places of the charm are directories where the
charm's are, and files or links where they are not. -/
structure SameKinds (inside : Listing) (top : Location) (fs : FileSystem) : Prop where
  directory : fs.isDirectory top = true
  kinds : ∀ rel node old, charmNode inside rel = some node → fs (top ++ rel) = some old →
    ((∃ perm, node = .directory perm) ↔ ∃ perm, old = .directory perm) ∧ old ≠ .leaf .special

/-- The items are laid over the files. -/
def laid (top : Location) (fs : FileSystem) (l : List (Location × Node)) : FileSystem :=
  l.foldl (fun fs item => fs.set (top ++ item.1) (some item.2)) fs

/-- A link that stands where one is put leads somewhere, when what comes before it is laid. -/
def LinksLead (top : Location) : FileSystem → List (Location × Node) → Prop
  | _, [] => True
  | fs, item :: rest =>
    (∀ target old, item.2 = .leaf (.link target) →
      fs (top ++ item.1) = some (.leaf (.link old)) → fs.existsAt top item.1 = true) ∧
      LinksLead top (fs.set (top ++ item.1) (some item.2)) rest

/-- What an item may come upon. -/
def Fits : Node → Option Node → Prop
  | .directory _, old => old = none ∨ ∃ perm, old = some (.directory perm)
  | .leaf (.file _ _), old => old = none ∨ ∃ perm content, old = some (.leaf (.file perm content))
  | .leaf (.link _), old => old = none ∨ ∃ l, old = some (.leaf l)
  | .leaf .special, _ => False

section laid

variable (top : Location) (fs : FileSystem) (l : List (Location × Node))

theorem laid_other (loc : Location) (h : ∀ item ∈ l, loc ≠ top ++ item.1) :
    laid top fs l loc = fs loc := by
  induction l generalizing fs with
  | nil => rfl
  | cons item rest ih =>
    have hrest := ih (fs.set (top ++ item.1) (some item.2)) fun other hother =>
      h other (List.mem_cons_of_mem _ hother)
    exact hrest.trans (FileSystem.set_other _ _ (h item (by simp)))

theorem laid_mem (item : Location × Node) (hnodup : (l.map Prod.fst).Nodup) (h : item ∈ l) :
    laid top fs l (top ++ item.1) = some item.2 := by
  induction l generalizing fs with
  | nil => simp at h
  | cons first rest ih =>
    obtain ⟨hfirst, hrest⟩ := List.nodup_cons.mp hnodup
    rcases List.mem_cons.mp h with rfl | hin
    · have hother : ∀ other ∈ rest, top ++ item.1 ≠ top ++ other.1 := by
        intro other hother he
        exact hfirst (List.mem_map.mpr ⟨other, hother, (List.append_cancel_left he).symm⟩)
      exact (laid_other top _ rest _ hother).trans (FileSystem.set_same _)
    · exact ih _ hrest hin

end laid

/-- The items can be extracted one after the other. -/
structure Ready (known : Location → Prop) (top : Location) (fs : FileSystem)
    (l : List (Location × Node)) : Prop where
  opens : ∀ q, known q → fs.Opens top q
  grounded : Grounded known l
  nodup : (l.map Prod.fst).Nodup
  valid : ∀ item ∈ l, item.1 ≠ [] ∧ (∀ name ∈ item.1, IsFileName name) ∧ item.2 ≠ .leaf .special

section run

variable {known : Location → Prop} {top : Location} {fs : FileSystem} {item : Location × Node}
  {l : List (Location × Node)}

theorem opens_snoc {front : List String} {name : String} (h : fs.Opens top front)
    (hname : IsFileName name) (hdir : fs.isDirectory (top ++ (front ++ [name])) = true) :
    fs.Opens top (front ++ [name]) := by
  refine ⟨by simpa [or_imp, forall_and] using ⟨h.1, hname⟩, fun p hp => ?_⟩
  rcases List.prefix_concat_iff.mp hp with rfl | hp
  · exact hdir
  · exact h.2 p hp

/-- The first item stands behind directories that are there. -/
theorem Ready.first (h : Ready known top fs (item :: l)) :
    ∃ front name, item.1 = front ++ [name] ∧ IsFileName name ∧ fs.Opens top front := by
  obtain ⟨hne, hnames, -⟩ := h.valid item (by simp)
  obtain ⟨front, name, hitem⟩ := (List.eq_nil_or_concat' item.1).resolve_left hne
  have hknown := h.grounded.1
  rw [hitem, List.dropLast_concat] at hknown
  exact ⟨front, name, hitem, hnames name (by simp [hitem]), h.opens front hknown⟩

/-- When the first item is there, the others can be extracted. -/
theorem Ready.rest (h : Ready known top fs (item :: l)) (fs' : FileSystem)
    (spots : List Location) (hspares : fs.Spares fs' spots)
    (hdir : (∃ perm, item.2 = .directory perm) → fs'.isDirectory (top ++ item.1) = true) :
    Ready (fun q => known q ∨ q = item.1 ∧ ∃ perm, item.2 = .directory perm) top fs' l where
  opens q hq := by
    rcases hq with hknown | ⟨rfl, hitem⟩
    · exact FileSystem.opens_spares (h.opens q hknown) hspares
    · obtain ⟨front, name, hfront, hname, hopens⟩ := h.first
      have hthere := hdir hitem
      rw [hfront] at hthere ⊢
      exact opens_snoc (FileSystem.opens_spares hopens hspares) hname hthere
  grounded := h.grounded.2
  nodup := (List.nodup_cons.mp h.nodup).2
  valid other hother := h.valid other (List.mem_cons_of_mem _ hother)

theorem Ready.apart (h : Ready known top fs (item :: l)) (other : Location × Node)
    (hother : other ∈ l) : top ++ other.1 ≠ top ++ item.1 := by
  intro he
  have hmem : other.1 ∈ l.map Prod.fst := List.mem_map.mpr ⟨other, hother, rfl⟩
  exact (List.nodup_cons.mp h.nodup).1 (List.append_cancel_left he ▸ hmem)

theorem fits_spares (h : Fits item.2 (fs (top ++ item.1))) (spots : List Location)
    (hspots : (∃ target, item.2 = .leaf (.link target)) → top ++ item.1 ∈ spots) :
    fs.Spares (fs.set (top ++ item.1) (some item.2)) spots := by
  obtain ⟨rel, node⟩ := item
  cases node with
  | directory perm =>
    refine FileSystem.set_spares _ spots (fun _ => ⟨perm, rfl⟩) fun _ target => ⟨by simp, ?_⟩
    rcases h with hnone | ⟨old, hold⟩
    · simp [hnone]
    · simp [hold]
  | leaf l =>
    cases l with
    | special => exact absurd h id
    | file perm content =>
      rcases h with hnone | ⟨old, text, hold⟩
      · exact FileSystem.set_spares _ spots (by simp [FileSystem.isDirectory, hnone])
          fun _ target => by simp [hnone]
      · exact FileSystem.set_spares _ spots (by simp [FileSystem.isDirectory, hold])
          fun _ target => by simp [hold]
    | link target =>
      have hspot := hspots ⟨target, rfl⟩
      rcases h with hnone | ⟨old, hold⟩
      · exact FileSystem.set_spares _ spots (by simp [FileSystem.isDirectory, hnone])
          fun hout => absurd hspot hout
      · exact FileSystem.set_spares _ spots (by simp [FileSystem.isDirectory, hold])
          fun hout => absurd hspot hout

theorem some_eq_some_iff {α : Type} (p : Prop) (a b : α) (hp : p) :
    some a = some b ↔ p ∧ b = a :=
  ⟨fun h => ⟨hp, (Option.some.inj h).symm⟩, fun h => congrArg some h.2.symm⟩

/-- An item that fits is laid, but for a link that comes upon a link that leads nowhere. -/
theorem extract_item (hready : Ready known top fs (item :: l))
    (hfits : Fits item.2 (fs (top ++ item.1))) (fs' : FileSystem) :
    extractInfo top fs (encode item) = some fs' ↔
      (∀ target old, item.2 = .leaf (.link target) →
        fs (top ++ item.1) = some (.leaf (.link old)) → fs.existsAt top item.1 = true) ∧
      fs' = fs.set (top ++ item.1) (some item.2) := by
  obtain ⟨front, name, hitem, hname, hopens⟩ := hready.first
  obtain ⟨rel, node⟩ := item
  simp only at hitem hfits ⊢
  subst hitem
  cases node with
  | directory perm =>
    rw [extract_directory hopens hname perm hfits]
    exact some_eq_some_iff _ _ _ (by simp)
  | leaf l =>
    cases l with
    | special => exact absurd hfits id
    | file perm content =>
      rw [extract_file hopens hname perm content hfits]
      exact some_eq_some_iff _ _ _ (by simp)
    | link target =>
      rw [extract_link hopens hname target hfits]
      rcases hfits with hnone | ⟨old, hold⟩
      · rw [if_neg (by simp [hnone])]
        exact some_eq_some_iff _ _ _ (by simp [hnone])
      · cases hlead : fs.existsAt top (front ++ [name]) with
        | true =>
          rw [if_neg (by simp)]
          exact some_eq_some_iff _ _ _ (by simp)
        | false =>
          have hlink : ∃ leading, old = .link leading := by
            by_contra hno
            have hreach := FileSystem.reach_node hopens hname _ hold
              (fun leading he => hno ⟨leading, by simpa using he⟩)
            simp [FileSystem.existsAt, hreach] at hlead
          obtain ⟨leading, rfl⟩ := hlink
          simp [hold]

/-- Items that fit are laid over the files, if the links that they come upon lead somewhere. -/
theorem extractTo_laid (hready : Ready known top fs l)
    (hfits : ∀ item ∈ l, Fits item.2 (fs (top ++ item.1))) (fs' : FileSystem) :
    extractTo top fs (l.map encode) = some fs' ↔ LinksLead top fs l ∧ fs' = laid top fs l := by
  induction l generalizing known fs with
  | nil => simp [extractTo, LinksLead, laid, eq_comm]
  | cons item rest ih =>
    have hfirst := hfits item (by simp)
    have hspares := fits_spares hfirst [top ++ item.1] (by simp)
    have hrest := hready.rest _ _ hspares
      (by rintro ⟨perm, hperm⟩; simp [FileSystem.isDirectory, hperm])
    have hothers : ∀ other ∈ rest,
        Fits other.2 (fs.set (top ++ item.1) (some item.2) (top ++ other.1)) := by
      intro other hother
      rw [FileSystem.set_other _ _ (hready.apart other hother)]
      exact hfits other (List.mem_cons_of_mem _ hother)
    have hrun : extractTo top fs ((item :: rest).map encode) =
        (extractInfo top fs (encode item)).bind fun next =>
          extractTo top next (rest.map encode) := rfl
    rw [hrun, Option.bind_eq_some_iff]
    constructor
    · rintro ⟨next, hnext, hgo⟩
      obtain ⟨hlead, rfl⟩ := (extract_item hready hfirst next).mp hnext
      obtain ⟨hleads, hlaid⟩ := (ih hrest hothers).mp hgo
      exact ⟨⟨hlead, hleads⟩, hlaid⟩
    · rintro ⟨⟨hlead, hleads⟩, hlaid⟩
      exact ⟨_, (extract_item hready hfirst _).mpr ⟨hlead, rfl⟩,
        (ih hrest hothers).mpr ⟨hleads, hlaid⟩⟩

/-- A directory that is extracted where no link is is there. -/
theorem extract_isDirectory (hready : Ready known top fs (item :: l)) (perm : Perm)
    (hitem : item.2 = .directory perm)
    (hlink : ∀ target, fs (top ++ item.1) ≠ some (.leaf (.link target))) (fs' : FileSystem)
    (h : extractInfo top fs (encode item) = some fs') :
    fs'.isDirectory (top ++ item.1) = true := by
  by_cases hfits : Fits item.2 (fs (top ++ item.1))
  · obtain ⟨-, rfl⟩ := (extract_item hready hfits fs').mp h
    simp [FileSystem.isDirectory, hitem]
  · obtain ⟨front, name, hrel, hname, hopens⟩ := hready.first
    obtain ⟨rel, node⟩ := item
    simp only at hrel hitem hlink hfits h ⊢
    subst hrel hitem
    cases hnode : fs (top ++ (front ++ [name])) with
    | none => exact absurd (Or.inl hnode) hfits
    | some old =>
      cases old with
      | directory old => exact absurd (Or.inr ⟨old, hnode⟩) hfits
      | leaf l =>
        have hreach := FileSystem.reach_node hopens hname _ hnode
          (fun target he => hlink target (by rw [hnode, he]))
        rw [extractInfo_directory (by simp) (names_snoc hopens hname)] at h
        simp [FileSystem.isdirAt, hreach, FileSystem.isDirectory, hnode, FileSystem.mkdir,
          FileSystem.make, FileSystem.place_opens hopens] at h

/-- A link stays what it is, but where the items have a link. -/
theorem extractTo_links (hready : Ready known top fs l)
    (hdirs : ∀ item ∈ l, (∃ perm, item.2 = .directory perm) →
      ∀ target, fs (top ++ item.1) ≠ some (.leaf (.link target))) (fs' : FileSystem)
    (h : extractTo top fs (l.map encode) = some fs') (loc : Location) (target : String)
    (hloc : ∀ item ∈ l, ∀ other, item.2 = .leaf (.link other) → loc ≠ top ++ item.1) :
    fs' loc = some (.leaf (.link target)) ↔ fs loc = some (.leaf (.link target)) := by
  induction l generalizing known fs with
  | nil =>
    obtain rfl := Option.some.inj h
    rfl
  | cons item rest ih =>
    have hrun : extractTo top fs ((item :: rest).map encode) =
        (extractInfo top fs (encode item)).bind fun next =>
          extractTo top next (rest.map encode) := rfl
    rw [hrun, Option.bind_eq_some_iff] at h
    obtain ⟨next, hnext, hgo⟩ := h
    obtain ⟨front, name, hrel, hname, hopens⟩ := hready.first
    have hspecial := (hready.valid item (by simp)).2.2
    have hspares : fs.Spares next (linkSpots top item) := by
      have hextracted := extractInfo_spares hopens hname item.2 hspecial next
        (by rw [← hrel]; exact hnext)
      rwa [← hrel] at hextracted
    have hspot (loc : Location) (h : ∀ other, item.2 = .leaf (.link other) → loc ≠ top ++ item.1) :
        loc ∉ linkSpots top item := by
      unfold linkSpots
      split
      · rename_i other hother
        simpa using h other hother
      · simp
    have hrest := hready.rest next _ hspares fun ⟨perm, hperm⟩ =>
      extract_isDirectory hready perm hperm (hdirs item (by simp) ⟨perm, hperm⟩) next hnext
    have hothers : ∀ other ∈ rest, (∃ perm, other.2 = .directory perm) →
        ∀ target, next (top ++ other.1) ≠ some (.leaf (.link target)) := by
      intro other hother hperm target he
      have hapart := hready.apart other hother
      exact hdirs other (List.mem_cons_of_mem _ hother) hperm target
        ((hspares.links _ target (hspot _ fun _ _ => hapart)).mp he)
    have hkept := ih hrest hothers hgo fun other hother =>
      hloc other (List.mem_cons_of_mem _ hother)
    exact hkept.trans (hspares.links loc target (hspot loc (hloc item (by simp))))

end run

section archived

variable {w : Host} {top : String} {inside : Listing}
  (htop : top ≠ "" ∧ top.toList.getLast? ≠ some '/') (hinside : inside.WellFormed)
include htop hinside

theorem archived_sound (item : Location × Node) (h : item ∈ archived w top inside) :
    charmNode inside item.1 = some item.2 ∧ item.1 ≠ [] ∧ (∀ name ∈ item.1, IsFileName name) ∧
      ∀ leaf, item.2 = .leaf leaf → w.isdir (joinPath (top :: item.1)) leaf = false := by
  obtain ⟨hcontent, hkept⟩ := List.mem_filter.mp h
  obtain ⟨name, q, hitem, -, hfind, hnames, hdir⟩ :=
    content_sound htop [] inside hinside (by simp) item hcontent
  rw [List.nil_append] at hitem
  have hout : ignored item.1 = false := by simpa using hkept
  refine ⟨?_, by simp [hitem], hitem ▸ hnames, hdir⟩
  rw [charmNode, hout, hitem]
  exact hfind

theorem archived_complete (rel : Location) (node : Node)
    (h : charmNode inside rel = some node) :
    (rel, node) ∈ archived w top inside ∨
      ∃ leaf, node = .leaf leaf ∧ w.isdir (joinPath (top :: rel)) leaf = true := by
  unfold charmNode at h
  split at h
  · simp at h
  · rename_i hout
    refine (content_complete htop [] inside hinside (by simp) rel node h).imp_left fun hin => ?_
    exact List.mem_filter.mpr ⟨hin, by simpa using hout⟩

theorem archived_nodup : ((archived w top inside).map Prod.fst).Nodup :=
  (content_nodup htop [] inside hinside (by simp)).sublist (List.filter_sublist.map _)

omit htop hinside in
theorem archived_grounded :
    Grounded (fun q => q = [] ∧ ignored q = false) (archived w top inside) := by
  have hcontent : Grounded (fun q => q = []) (content w top [] inside) := by
    obtain ⟨hfiles, hplaces⟩ := content_grounded (fun q => q = []) [] inside rfl
    exact grounded_append hfiles hplaces
  exact grounded_filter hcontent

theorem archived_ready (loc : Location) (fs : FileSystem) (hdir : fs.isDirectory loc = true)
    (hspecial : ∀ item ∈ archived w top inside, item.2 ≠ .leaf .special) :
    Ready (fun q => q = [] ∧ ignored q = false) loc fs (archived w top inside) where
  opens q hq := by
    obtain rfl := hq.1
    refine ⟨by simp, fun p hp => ?_⟩
    obtain rfl := List.prefix_nil.mp hp
    simpa using hdir
  grounded := archived_grounded
  nodup := archived_nodup htop hinside
  valid item hitem := by
    obtain ⟨-, hne, hnames, -⟩ := archived_sound htop hinside item hitem
    exact ⟨hne, hnames, hspecial item hitem⟩

end archived

/-- What is extracted is the charm at its places, and the old files elsewhere. -/
def Reproduces (inside : Listing) (top : Location) (fs : FileSystem) (infos : List ZipInfo) :
    Prop :=
  extractTo top fs infos = some (withCharm inside top fs)

/-- When a charm is reproduced: its links to directories are there before; no link is there at the
place of a file; and a link at the place of a link to a file leads somewhere in its turn. -/
structure Reproducible (w : Host) (path : String) (inside : Listing) (top : Location)
    (fs : FileSystem) : Prop where
  directories : ∀ rel leaf, charmNode inside rel = some (.leaf leaf) →
    w.isdir (joinPath (path :: rel)) leaf = true → fs (top ++ rel) = some (.leaf leaf)
  files : ∀ rel perm content, charmNode inside rel = some (.leaf (.file perm content)) →
    ∀ target, fs (top ++ rel) ≠ some (.leaf (.link target))
  links : LinksLead top fs (archived w path inside)

theorem withCharm_append (inside : Listing) (top rel : Location) (fs : FileSystem) :
    withCharm inside top fs (top ++ rel) = (charmNode inside rel).or (fs (top ++ rel)) := by
  simp [withCharm]

section reproduced

variable {w : Host} {path : String} {inside : Listing} {top : Location} {fs : FileSystem}
  (hpath : path ≠ "" ∧ path.toList.getLast? ≠ some '/') (hinside : inside.WellFormed)
include hpath hinside

theorem archived_fits (hkinds : SameKinds inside top fs)
    (hspecial : ∀ item ∈ archived w path inside, item.2 ≠ .leaf .special)
    (hfiles : ∀ rel perm content, charmNode inside rel = some (.leaf (.file perm content)) →
      ∀ target, fs (top ++ rel) ≠ some (.leaf (.link target))) :
    ∀ item ∈ archived w path inside, Fits item.2 (fs (top ++ item.1)) := by
  intro item hitem
  have hnode := (archived_sound hpath hinside item hitem).1
  have hkind := hkinds.kinds item.1 item.2
  have hno := hspecial item hitem
  obtain ⟨rel, node⟩ := item
  simp only at hnode hkind hno ⊢
  cases hold : fs (top ++ rel) with
  | none =>
    cases node with
    | directory perm => exact Or.inl rfl
    | leaf l =>
      cases l with
      | file perm content => exact Or.inl rfl
      | link target => exact Or.inl rfl
      | special => exact hno rfl
  | some old =>
    obtain ⟨hiff, hordinary⟩ := hkind old hnode hold
    cases node with
    | directory perm =>
      obtain ⟨perm', rfl⟩ := hiff.mp ⟨perm, rfl⟩
      exact Or.inr ⟨perm', rfl⟩
    | leaf l =>
      cases old with
      | directory perm => simp at hiff
      | leaf other =>
        cases l with
        | special => exact hno rfl
        | link target => exact Or.inr ⟨other, rfl⟩
        | file perm content =>
          cases other with
          | file perm' content' => exact Or.inr ⟨perm', content', rfl⟩
          | link target => exact absurd hold (hfiles rel perm content hnode target)
          | special => exact absurd rfl hordinary

/-- A link to a directory is not in the archive. -/
theorem archived_no_directory (rel : Location) (leaf : Leaf)
    (hnode : charmNode inside rel = some (.leaf leaf))
    (hdir : w.isdir (joinPath (path :: rel)) leaf = true) :
    ∀ item ∈ archived w path inside, top ++ rel ≠ top ++ item.1 := by
  intro item hitem he
  obtain ⟨hsame, -, -, hno⟩ := archived_sound hpath hinside item hitem
  rw [← List.append_cancel_left he] at hsame hno
  simp [hno leaf (Option.some.inj (hsame.symm.trans hnode))] at hdir

theorem laid_archived (hdirectories : ∀ rel leaf, charmNode inside rel = some (.leaf leaf) →
      w.isdir (joinPath (path :: rel)) leaf = true → fs (top ++ rel) = some (.leaf leaf)) :
    laid top fs (archived w path inside) = withCharm inside top fs := by
  funext loc
  by_cases hloc : top <+: loc
  · obtain ⟨rel, rfl⟩ := hloc
    rw [withCharm_append]
    cases hnode : charmNode inside rel with
    | none =>
      refine laid_other top fs _ _ fun item hitem he => ?_
      have hsome := (archived_sound hpath hinside item hitem).1
      rw [← List.append_cancel_left he, hnode] at hsome
      simp at hsome
    | some node =>
      obtain hin | ⟨leaf, rfl, hdir⟩ := archived_complete (w := w) hpath hinside rel node hnode
      · exact laid_mem top fs _ (rel, node) (archived_nodup hpath hinside) hin
      · rw [laid_other top fs _ _ (archived_no_directory hpath hinside rel leaf hnode hdir)]
        exact hdirectories rel leaf hnode hdir
  · rw [withCharm, if_neg hloc]
    refine laid_other top fs _ _ fun item _ he => hloc ?_
    rw [he]
    exact List.prefix_append _ _

/-- A charm that is reproduced comes upon no link where it has a file. -/
theorem reproduced_files (hkinds : SameKinds inside top fs)
    (hspecial : ∀ item ∈ archived w path inside, item.2 ≠ .leaf .special)
    (h : extractTo top fs ((archived w path inside).map encode) =
      some (withCharm inside top fs)) (rel : Location) (perm : Perm) (content : String)
    (hnode : charmNode inside rel = some (.leaf (.file perm content))) (target : String) :
    fs (top ++ rel) ≠ some (.leaf (.link target)) := by
  intro hlink
  have hready := archived_ready hpath hinside top fs hkinds.directory hspecial
  have hdirs : ∀ item ∈ archived w path inside, (∃ perm, item.2 = .directory perm) →
      ∀ target, fs (top ++ item.1) ≠ some (.leaf (.link target)) := by
    intro item hitem hperm target he
    have hsound := (archived_sound hpath hinside item hitem).1
    obtain ⟨perm', hperm'⟩ := (hkinds.kinds item.1 item.2 _ hsound he).1.mp hperm
    simp at hperm'
  have hplaces : ∀ item ∈ archived w path inside, ∀ other, item.2 = .leaf (.link other) →
      top ++ rel ≠ top ++ item.1 := by
    intro item hitem other hother he
    have hsound := (archived_sound hpath hinside item hitem).1
    rw [← List.append_cancel_left he, hnode, hother] at hsound
    simp at hsound
  have hkept := (extractTo_links hready hdirs _ h (top ++ rel) target hplaces).mpr hlink
  rw [withCharm_append, hnode] at hkept
  simp at hkept

end reproduced

theorem reproduces_iff (w : Host) (c : CharmDirectory) (loc : Location) (perm : Perm)
    (inside : Listing) (infos : List ZipInfo)
    (hpath : c.path ≠ "" ∧ c.path.toList.getLast? ≠ some '/')
    (hleads : w.leads c.path = some loc) (hdirectory : w.fs loc = some (.directory perm))
    (hlisted : w.root.listdir loc = some inside) (harchive : c.makeArchive w = .ok infos)
    (top : Location) (fs : FileSystem) (hkinds : SameKinds inside top fs) :
    Reproduces inside top fs infos ↔ Reproducible w c.path inside top fs := by
  have hinside := Listing.listdir_wellFormed _ _ _ w.wellFormed hlisted
  obtain ⟨hinfos, hnormal⟩ :=
    makeArchive_encodes hpath loc perm inside hleads hdirectory hlisted infos harchive
  rw [walkItems_eq] at hinfos hnormal
  have hspecial : ∀ item ∈ archived w c.path inside, item.2 ≠ .leaf .special := by
    intro item hitem
    obtain ⟨hcontent, hkept⟩ := List.mem_filter.mp hitem
    exact hnormal item hcontent (by simpa using hkept)
  have hready := archived_ready hpath hinside top fs hkinds.directory hspecial
  have hencoded : infos = (archived w c.path inside).map encode := hinfos
  rw [Reproduces, hencoded]
  constructor
  · intro h
    have hfiles := reproduced_files hpath hinside hkinds hspecial h
    have hfits := archived_fits hpath hinside hkinds hspecial hfiles
    obtain ⟨hleading, hlaid⟩ := (extractTo_laid hready hfits _).mp h
    refine ⟨fun rel leaf hnode hdir => ?_, hfiles, hleading⟩
    have hout : ∀ item ∈ archived w c.path inside, top ++ rel ≠ top ++ item.1 :=
      archived_no_directory hpath hinside rel leaf hnode hdir
    have hsame := congrFun hlaid (top ++ rel)
    rw [laid_other top fs _ _ hout, withCharm_append, hnode] at hsame
    exact hsame.symm
  · intro h
    have hfits := archived_fits hpath hinside hkinds hspecial h.files
    have hlaid : laid top fs (archived w c.path inside) = withCharm inside top fs :=
      laid_archived hpath hinside h.directories
    exact (extractTo_laid hready hfits _).mpr ⟨h.links, hlaid.symm⟩

/-- A machine with a charm in `/srv/charm`, in which `current` is a link to its hooks. -/
def linkedHost : Host where
  root := .directory "srv" 0o755 (.directory "charm" 0o755
    (.leaf "current" (.link "hooks") (.directory "hooks" 0o755
      (.leaf "install" (.file 0o755 "#!/bin/sh") .nil) .nil)) .nil) .nil
  wellFormed := by decide
  cwd := []

def linkedCharm : Listing :=
  .leaf "current" (.link "hooks") (.directory "hooks" 0o755
    (.leaf "install" (.file 0o755 "#!/bin/sh") .nil) .nil)

/-- A file system with nothing but its root. -/
def emptyFiles : FileSystem := fun loc => if loc = [] then some (.directory 0o755) else none

def linkedInfos : List ZipInfo :=
  [encode (["hooks"], .directory 0o755),
    encode (["hooks", "install"], .leaf (.file 0o755 "#!/bin/sh"))]

theorem emptyFiles_kinds : SameKinds linkedCharm [] emptyFiles where
  directory := by decide
  kinds rel node old hnode hold := by
    by_cases hrel : rel = []
    · have hnone : charmNode linkedCharm [] = none := by decide
      simp [hrel, hnone] at hnode
    · simp [emptyFiles, hrel] at hold

theorem reproduces_iff_linked : ¬ Reproduces linkedCharm [] emptyFiles linkedInfos := by
  intro h
  have hiff := reproduces_iff linkedHost ⟨"/srv/charm", "linked"⟩ ["srv", "charm"] 0o755 linkedCharm
    linkedInfos (by decide) (by decide) (by decide) (by rfl)
    (by decide) [] emptyFiles emptyFiles_kinds
  have hthere := (hiff.mp h).directories ["current"] (.link "hooks") (by decide)
    (by decide)
  exact absurd hthere (by decide)

/-- A link to a directory is missing in a charm that is extracted from its archive. -/
theorem directory_link_lost :
    ¬ ∀ (w : Host) (c : CharmDirectory) (loc : Location) (perm : Perm) (inside : Listing)
      (infos : List ZipInfo), c.path ≠ "" ∧ c.path.toList.getLast? ≠ some '/' →
      w.leads c.path = some loc → w.fs loc = some (.directory perm) →
      w.root.listdir loc = some inside → c.makeArchive w = .ok infos →
      ∀ (top : Location) (fs : FileSystem), SameKinds inside top fs →
      Reproduces inside top fs infos := by
  intro h
  have hok := h linkedHost ⟨"/srv/charm", "linked"⟩ ["srv", "charm"] 0o755 linkedCharm linkedInfos
    (by decide) (by decide) (by decide) (by rfl) (by decide) []
    emptyFiles emptyFiles_kinds
  have hlost : (extractTo [] emptyFiles linkedInfos).map (fun fs => fs ["current"]) =
      some none := by decide
  rw [Reproduces] at hok
  rw [hok] at hlost
  exact absurd hlost (by decide)

end Juju.Charm
