import Juju.Charm.CharmDirectory
import Juju.Lib.FileChanges
import Mathlib.Algebra.Group.Nat.Defs

namespace Juju.Charm
open Juju.Base Juju.Lib

/-- The bits of a mode that tell what the file is. -/
def S_IFMT (mode : Nat) : Nat := mode / 2 ^ 12 % 2 ^ 4 * 2 ^ 12

def S_ISLNK (mode : Nat) : Bool := S_IFMT mode = S_IFLNK

def permOf (mode : Nat) : Perm := Fin.ofNat 4096 mode

/-- The components that `ZipFile.extract` keeps of the name of a member. -/
def memberNames (filename : String) : List String :=
  (splitPath filename).filter fun name => name ≠ "" && name ≠ "." && name ≠ ".."

/-- `zf.extract(info, directory_path)`, which leads to `top`. The directories above a member are
members before it. -/
def extractMember (top : Location) (fs : FileSystem) (info : ZipInfo) : Option FileSystem :=
  let names := memberNames info.filename
  if info.filename.toList.getLast? = some '/' then
    if fs.isdirAt top names then some fs else fs.mkdir top names
  else fs.write top names info.data

/-- What `extract_to` removes, for a link to take its place. -/
def clear (top : Location) (fs : FileSystem) (names : List String) : Option FileSystem :=
  if fs.existsAt top names then fs.remove top names else some fs

/-- What `extract_to` does for a member of the archive; `none` is an `OSError`. -/
def extractInfo (top : Location) (fs : FileSystem) (info : ZipInfo) : Option FileSystem :=
  let mode := info.externalAttr / 2 ^ 16
  if S_ISLNK mode then do
    let cleared ← clear top fs (splitPath info.filename)
    cleared.symlink top (splitPath info.filename) info.data
  else do
    let extracted ← extractMember top fs info
    extracted.chmod top (memberNames info.filename) (permOf mode)

/-- The members are extracted in their order. The handle that is made of the directory afterwards
only reads. -/
def extractTo (top : Location) (fs : FileSystem) (infos : List ZipInfo) : Option FileSystem :=
  infos.foldlM (extractInfo top) fs

/-- How the archive holds what stands at a place in the charm. -/
def encode (item : Location × Node) : ZipInfo :=
  match item.2 with
  | .directory perm => ⟨joinPath item.1 ++ "/", (S_IFDIR + perm) * 2 ^ 16, ""⟩
  | .leaf (.file perm content) => ⟨joinPath item.1, (S_IFREG + perm) * 2 ^ 16, content⟩
  | .leaf (.link target) => writeSymlink target (joinPath item.1)
  | .leaf .special => ⟨joinPath item.1, 0, ""⟩

section modes

variable (kind : Nat) (perm : Perm)

theorem mode_eq : (kind * 2 ^ 12 + perm.val) * 2 ^ 16 / 2 ^ 16 = kind * 2 ^ 12 + perm.val := by
  omega

theorem S_IFMT_mode (h : kind < 2 ^ 4) : S_IFMT (kind * 2 ^ 12 + perm.val) = kind * 2 ^ 12 := by
  have hlt := perm.isLt
  unfold S_IFMT
  omega

theorem permOf_mode : permOf (kind * 2 ^ 12 + perm.val) = perm := by
  have hlt := perm.isLt
  apply Fin.ext
  simp only [permOf, Fin.ofNat]
  omega

end modes

section members

variable {rel : Location} (hne : rel ≠ []) (hrel : ∀ name ∈ rel, IsFileName name)
include hne hrel

theorem splitPath_rel : splitPath (joinPath rel) = rel :=
  splitPath_joinPath rel hne fun name hname => (hrel name hname).1

theorem memberNames_file : memberNames (joinPath rel) = rel := by
  rw [memberNames, splitPath_rel hne hrel, List.filter_eq_self]
  intro name hname
  obtain ⟨⟨h, -⟩, hdot, hdots⟩ := hrel name hname
  simp [h, hdot, hdots]

theorem memberNames_directory : memberNames (joinPath rel ++ "/") = rel := by
  have hfile := memberNames_file hne hrel
  unfold memberNames at hfile ⊢
  rw [splitPath_slash, List.filter_append, hfile]
  simp

variable (top : Location) (fs : FileSystem)

theorem extractInfo_directory (perm : Perm) :
    extractInfo top fs (encode (rel, .directory perm)) =
      (if fs.isdirAt top rel then some fs else fs.mkdir top rel).bind fun extracted =>
        extracted.chmod top rel perm := by
  have hmode := mode_eq 4 perm
  have hperm := permOf_mode 4 perm
  have hlink : S_ISLNK (4 * 2 ^ 12 + perm.val) = false := by
    rw [S_ISLNK, S_IFMT_mode 4 perm (by decide)]
    decide
  have hlast : (joinPath rel ++ "/").toList.getLast? = some '/' := by simp
  have hcode : encode (rel, .directory perm) =
      ⟨joinPath rel ++ "/", (4 * 2 ^ 12 + perm.val) * 2 ^ 16, ""⟩ := rfl
  rw [hcode]
  simp only [extractInfo, extractMember, hmode, hlink, hperm, hlast, if_true,
    memberNames_directory hne hrel]
  rfl

theorem extractInfo_file (perm : Perm) (content : String) :
    extractInfo top fs (encode (rel, .leaf (.file perm content))) =
      (fs.write top rel content).bind fun extracted => extracted.chmod top rel perm := by
  have hmode := mode_eq 8 perm
  have hperm := permOf_mode 8 perm
  have hlink : S_ISLNK (8 * 2 ^ 12 + perm.val) = false := by
    rw [S_ISLNK, S_IFMT_mode 8 perm (by decide)]
    decide
  have hlast : (joinPath rel).toList.getLast? ≠ some '/' := by
    obtain ⟨front, name, rfl⟩ := (List.eq_nil_or_concat' rel).resolve_left hne
    have hname := (hrel name (by simp)).1
    exact (joinPath_last front name hname.1 (nodeName_last name hname)).2
  have hcode : encode (rel, .leaf (.file perm content)) =
      ⟨joinPath rel, (8 * 2 ^ 12 + perm.val) * 2 ^ 16, content⟩ := rfl
  rw [hcode]
  simp only [extractInfo, extractMember, hmode, hlink, hperm, hlast, if_false,
    memberNames_file hne hrel]
  rfl

theorem extractInfo_link (target : String) :
    extractInfo top fs (encode (rel, .leaf (.link target))) =
      (clear top fs rel).bind fun cleared => cleared.symlink top rel target := by
  have hlink : S_ISLNK ((S_IFLNK + 0o755) * 2 ^ 16 / 2 ^ 16) = true := by decide
  have hcode : encode (rel, .leaf (.link target)) =
      ⟨joinPath rel, (S_IFLNK + 0o755) * 2 ^ 16, target⟩ := rfl
  rw [hcode]
  simp only [extractInfo, hlink, if_true, splitPath_rel hne hrel]
  rfl

end members

section single

/- An entry behind directories that are there. -/
variable {top : Location} {fs : FileSystem} {front : List String} {name : String}
  (h : fs.Opens top front) (hname : IsFileName name)
include h hname

theorem names_snoc : ∀ other ∈ front ++ [name], IsFileName other := by
  intro other hother
  cases List.mem_append.mp hother with
  | inl hin => exact h.1 other hin
  | inr hin => exact List.mem_singleton.mp hin ▸ hname

theorem extract_directory (perm : Perm) (hnode : fs (top ++ (front ++ [name])) = none ∨
    ∃ old, fs (top ++ (front ++ [name])) = some (.directory old)) :
    extractInfo top fs (encode (front ++ [name], .directory perm)) =
      some (fs.set (top ++ (front ++ [name])) (some (.directory perm))) := by
  rw [extractInfo_directory (by simp) (names_snoc h hname)]
  rcases hnode with hnone | ⟨old, hold⟩
  · have hisdir : fs.isdirAt top (front ++ [name]) = false := by
      simp [FileSystem.isdirAt, FileSystem.reach_none h hname hnone]
    have hmade : (fs.set (top ++ (front ++ [name]))
        (some (.directory FileSystem.freshPerm))).Opens top front := FileSystem.opens_set _ h
    simp [hisdir, FileSystem.mkdir, FileSystem.make_none h _ hnone,
      FileSystem.chmod_directory hmade hname FileSystem.freshPerm perm (by simp)]
  · have hisdir : fs.isdirAt top (front ++ [name]) = true := by
      simp [FileSystem.isdirAt, FileSystem.reach_node h hname _ hold (by simp),
        FileSystem.isDirectory, hold]
    simp [hisdir, FileSystem.chmod_directory h hname old perm hold]

theorem extract_file (perm : Perm) (content : String)
    (hnode : fs (top ++ (front ++ [name])) = none ∨
      ∃ old text, fs (top ++ (front ++ [name])) = some (.leaf (.file old text))) :
    extractInfo top fs (encode (front ++ [name], .leaf (.file perm content))) =
      some (fs.set (top ++ (front ++ [name])) (some (.leaf (.file perm content)))) := by
  obtain ⟨fresh, hwrite⟩ := FileSystem.write_file h hname content hnode
  have hmade : (fs.set (top ++ (front ++ [name]))
      (some (.leaf (.file fresh content)))).Opens top front := FileSystem.opens_set _ h
  rw [extractInfo_file (by simp) (names_snoc h hname), hwrite]
  simp [FileSystem.chmod_file hmade hname fresh perm content (by simp)]

/-- A link takes the place of what is there, unless that is a link that leads nowhere. -/
theorem extract_link (target : String) (hnode : fs (top ++ (front ++ [name])) = none ∨
    ∃ l, fs (top ++ (front ++ [name])) = some (.leaf l)) :
    extractInfo top fs (encode (front ++ [name], .leaf (.link target))) =
      if fs (top ++ (front ++ [name])) ≠ none ∧ fs.existsAt top (front ++ [name]) = false then none
      else some (fs.set (top ++ (front ++ [name])) (some (.leaf (.link target)))) := by
  rw [extractInfo_link (by simp) (names_snoc h hname)]
  rcases hnode with hnone | ⟨l, hl⟩
  · have hexists : fs.existsAt top (front ++ [name]) = false := by
      simp [FileSystem.existsAt, FileSystem.reach_none h hname hnone]
    simp [clear, hexists, FileSystem.symlink, FileSystem.make_none h _ hnone, hnone]
  · cases hexists : fs.existsAt top (front ++ [name]) with
    | false =>
      simp [clear, hexists, FileSystem.symlink, FileSystem.make, FileSystem.place_opens h, hl]
    | true =>
      have hcleared : (fs.set (top ++ (front ++ [name])) none).Opens top front :=
        FileSystem.opens_set none h
      have hmade := FileSystem.make_none hcleared (.leaf (.link target)) (FileSystem.set_same none)
      simp [clear, hexists, FileSystem.remove_leaf h l hl, FileSystem.symlink, hmade]

/-- Where an entry may put another link, or none. -/
def linkSpots (top : Location) (item : Location × Node) : List Location :=
  match item.2 with
  | .leaf (.link _) => [top ++ item.1]
  | _ => []

/-- An entry that is extracted takes away no directory, and no link but where it puts one. -/
theorem extractInfo_spares (node : Node) (hspecial : node ≠ .leaf .special) (fs' : FileSystem)
    (hok : extractInfo top fs (encode (front ++ [name], node)) = some fs') :
    fs.Spares fs' (linkSpots top (front ++ [name], node)) := by
  have hnames := names_snoc h hname
  cases node with
  | directory perm =>
    rw [extractInfo_directory (by simp) hnames] at hok
    obtain ⟨made, hmade, hchmod⟩ := Option.bind_eq_some_iff.mp hok
    have hchanged := FileSystem.chmod_spares perm hchmod
    split at hmade
    · exact Option.some.inj hmade ▸ hchanged
    · exact (FileSystem.mkdir_spares hmade).trans hchanged
  | leaf l =>
    cases l with
    | special => exact absurd rfl hspecial
    | file perm content =>
      rw [extractInfo_file (by simp) hnames] at hok
      obtain ⟨written, hwrite, hchmod⟩ := Option.bind_eq_some_iff.mp hok
      exact (FileSystem.write_spares content hwrite).trans (FileSystem.chmod_spares perm hchmod)
    | link target =>
      rw [extractInfo_link (by simp) hnames] at hok
      obtain ⟨cleared, hclear, hlink⟩ := Option.bind_eq_some_iff.mp hok
      have hplace : fs.place top (front ++ [name]) = some (top ++ (front ++ [name])) :=
        FileSystem.place_opens h
      have hcleared : fs.Spares cleared [top ++ (front ++ [name])] := by
        unfold clear at hclear
        split at hclear
        · exact FileSystem.remove_spares hplace hclear
        · exact Option.some.inj hclear ▸ FileSystem.spares_refl _
      have hopens := FileSystem.opens_spares h hcleared
      exact hcleared.trans
        (FileSystem.symlink_spares target (FileSystem.place_opens hopens) hlink)

end single

end Juju.Charm
