import Mathlib.Data.List.DropRight

namespace Juju.Base

/-- A path component: not empty, and without a slash. -/
def IsNodeName (s : String) : Prop := s ≠ "" ∧ '/' ∉ s.toList

instance (s : String) : Decidable (IsNodeName s) :=
  inferInstanceAs (Decidable (s ≠ "" ∧ '/' ∉ s.toList))

/-- `"/".join(parts)`. -/
def joinPath : List String → String
  | [] => ""
  | [part] => part
  | part :: next :: parts => part ++ "/" ++ joinPath (next :: parts)

def rstripSlash (path : String) : String :=
  String.ofList (path.toList.rdropWhile (· = '/'))

/-- The path up to its last slash, `"/".join(path.split("/")[:-1])`. -/
def beforeLast (path : String) : String :=
  String.ofList (path.toList.rdropWhile (· ≠ '/')).dropLast

/-- As `posixpath.dirname`, where a head of slashes alone is kept. -/
def dirname (path : String) : String :=
  let head := path.toList.rdropWhile (· ≠ '/')
  String.ofList (if head.all (· = '/') then head else head.rdropWhile (· = '/'))

theorem rdropWhile_slash (front name : List Char) (h : '/' ∉ name) :
    (front ++ '/' :: name).rdropWhile (· ≠ '/') = front ++ ['/'] := by
  induction name using List.reverseRecOn with
  | nil => simp
  | append_singleton name c ih =>
    have hc : c ≠ '/' := fun he => h (by simp [he])
    have hname : '/' ∉ name := fun hin => h (by simp [hin])
    rw [← List.cons_append, ← List.append_assoc,
      List.rdropWhile_concat_pos _ _ _ (by simpa using hc)]
    exact ih hname

theorem nodeName_snoc (name : String) (h : IsNodeName name) :
    ∃ front c, name.toList = front ++ [c] ∧ c ≠ '/' := by
  cases hn : name.toList using List.reverseRecOn with
  | nil => exact absurd (String.toList_injective (hn.trans (by rfl))) h.1
  | append_singleton front c =>
    have hin : c ∈ name.toList := by simp [hn]
    exact ⟨front, c, rfl, fun he => h.2 (he ▸ hin)⟩

theorem rdropWhile_name (front : List Char) (name : String) (h : IsNodeName name) :
    (front ++ name.toList).rdropWhile (· = '/') = front ++ name.toList := by
  obtain ⟨init, c, hc, hne⟩ := nodeName_snoc name h
  rw [hc, ← List.append_assoc, List.rdropWhile_concat_neg _ _ _ (by simpa using hne)]

@[simp] theorem rstripSlash_name (front name : String) (h : IsNodeName name) :
    rstripSlash (front ++ name) = front ++ name := by
  apply String.toList_injective
  simp only [rstripSlash, String.toList_ofList, String.toList_append]
  exact rdropWhile_name _ name h

theorem rstripSlash_slash (front name : String) (h : IsNodeName name) :
    rstripSlash (front ++ name ++ "/") = front ++ name := by
  apply String.toList_injective
  simp only [rstripSlash, String.toList_ofList, String.toList_append]
  rw [show "/".toList = ['/'] from rfl, List.rdropWhile_concat_pos _ _ _ (by simp)]
  exact rdropWhile_name _ name h

theorem beforeLast_name (front name : String) (h : IsNodeName name) :
    beforeLast (front ++ "/" ++ name) = front := by
  apply String.toList_injective
  have hslash := rdropWhile_slash front.toList name.toList h.2
  simp only [beforeLast, String.toList_ofList, String.toList_append]
  rw [show "/".toList = ['/'] from rfl, List.append_assoc, List.singleton_append, hslash,
    List.dropLast_concat]

theorem dirname_name (front parent name : String) (hparent : IsNodeName parent)
    (h : IsNodeName name) : dirname (front ++ parent ++ "/" ++ name) = front ++ parent := by
  apply String.toList_injective
  have hslash := rdropWhile_slash (front.toList ++ parent.toList) name.toList h.2
  have hhead : (front ++ parent ++ "/" ++ name).toList.rdropWhile (· ≠ '/') =
      front.toList ++ parent.toList ++ ['/'] := by
    simpa only [String.toList_append, show "/".toList = ['/'] from rfl, List.append_assoc,
      List.singleton_append] using hslash
  obtain ⟨init, c, hc, hne⟩ := nodeName_snoc parent hparent
  have hall : ¬ ((front.toList ++ parent.toList ++ ['/']).all (· = '/')) = true := by
    simp [hc, hne]
  unfold dirname
  simp only [hhead, if_neg hall, String.toList_ofList]
  rw [List.rdropWhile_concat_pos _ _ _ (by simp), rdropWhile_name _ parent hparent,
    String.toList_append]

end Juju.Base
