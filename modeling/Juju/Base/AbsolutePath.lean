import Juju.Base.Path
import Mathlib.Algebra.GroupWithZero.Nat

namespace Juju.Base

def isabs (path : String) : Bool := path.toList.head? = some '/'

/-- `os.path.join(a, b)`. -/
def join (a b : String) : String :=
  if isabs b then b
  else if a = "" ∨ a.toList.getLast? = some '/' then a ++ b
  else a ++ "/" ++ b

/-- `path.split("/")`. -/
def splitPath (path : String) : List String := (path.toList.splitOn '/').map String.ofList

/-- The leading slashes that are kept, two of them being different from one. -/
def initialSlashes (path : String) : Nat :=
  match path.toList with
  | '/' :: '/' :: '/' :: _ => 1
  | '/' :: '/' :: _ => 2
  | '/' :: _ => 1
  | _ => 0

/-- One turn of the loop of `normpath`, with the components that are kept so far, the last one
first. -/
def pushComponent (initial : Bool) (comps : List String) (comp : String) : List String :=
  if comp = "" ∨ comp = "." then comps
  else if comp ≠ ".." ∨ (initial = false ∧ comps = []) ∨ comps.head? = some ".." then
    comp :: comps
  else comps.tail

def normComponents (path : String) : List String :=
  ((splitPath path).foldl (pushComponent (isabs path)) []).reverse

def normpath (path : String) : String :=
  let text := String.ofList (List.replicate (initialSlashes path) '/') ++
    joinPath (normComponents path)
  if text = "" then "." else text

/-- `os.path.abspath(path)` in a process that stands in `cwd`. -/
def abspath (cwd path : String) : String := normpath (if isabs path then path else join cwd path)

/-- `text.startswith(start)`. -/
def startswith (text start : String) : Bool := start.toList.isPrefixOf text.toList

@[simp] theorem startswith_iff (text start : String) :
    startswith text start = true ↔ start.toList <+: text.toList := by
  simp [startswith]

/-- A path without the slashes at its end, slashes alone being kept. -/
def stripped (path : List Char) : List Char :=
  if path.all (· = '/') then path else path.rdropWhile (· = '/')

section length

/-- What the components take in a path, each with its slash. -/
def weight (comps : List String) : Nat :=
  (comps.map fun comp => if comp = "" then 0 else comp.length + 1).sum

@[simp] theorem weight_nil : weight [] = 0 := rfl

@[simp] theorem weight_cons (comp : String) (comps : List String) :
    weight (comp :: comps) = (if comp = "" then 0 else comp.length + 1) + weight comps := by
  simp [weight]

@[simp] theorem weight_append (comps comps' : List String) :
    weight (comps ++ comps') = weight comps + weight comps' := by
  simp [weight]

theorem weight_tail (comps : List String) : weight comps.tail ≤ weight comps := by
  cases comps with
  | nil => simp
  | cons comp comps => simp

theorem weight_reverse (comps : List String) : weight comps.reverse = weight comps := by
  induction comps with
  | nil => rfl
  | cons comp comps ih => simp [ih, Nat.add_comm]

theorem pushComponent_weight (initial : Bool) (comps : List String) (comp : String) :
    weight (pushComponent initial comps comp) ≤ weight comps + weight [comp] := by
  have htail := weight_tail comps
  unfold pushComponent
  split
  · omega
  · split
    · simp only [weight_cons, weight_nil]
      omega
    · omega

theorem pushComponent_mem (initial : Bool) (comps : List String) (comp : String)
    (h : "" ∉ comps) : "" ∉ pushComponent initial comps comp := by
  unfold pushComponent
  split
  · exact h
  · rename_i hcomp
    have hne : comp ≠ "" := fun he => hcomp (Or.inl he)
    split
    · simp [h, Ne.symm hne]
    · exact fun hin => h (List.mem_of_mem_tail hin)

theorem pushes_weight (initial : Bool) (comps kept : List String) :
    weight (comps.foldl (pushComponent initial) kept) ≤ weight kept + weight comps := by
  induction comps generalizing kept with
  | nil => simp
  | cons comp comps ih =>
    have hpush := pushComponent_weight initial kept comp
    have hrest := ih (pushComponent initial kept comp)
    simp only [List.foldl_cons, weight_cons, weight_nil] at hpush hrest ⊢
    omega

theorem pushes_mem (initial : Bool) (comps kept : List String) (h : "" ∉ kept) :
    "" ∉ comps.foldl (pushComponent initial) kept := by
  induction comps generalizing kept with
  | nil => exact h
  | cons comp comps ih => exact ih _ (pushComponent_mem initial kept comp h)

theorem joinPath_length (comps : List String) (h : "" ∉ comps) (hne : comps ≠ []) :
    (joinPath comps).length + 1 = weight comps := by
  induction comps with
  | nil => exact absurd rfl hne
  | cons comp comps ih =>
    have hcomp : comp ≠ "" := fun he => h (by simp [he])
    have hrest : "" ∉ comps := fun hin => h (List.mem_cons_of_mem _ hin)
    cases comps with
    | nil => simp [joinPath, hcomp]
    | cons next comps =>
      have hlength := ih hrest (by simp)
      have hone : "/".length = 1 := by decide
      rw [weight_cons, ← hlength, if_neg hcomp]
      simp only [joinPath, String.length_append, hone]
      omega

theorem weight_intercalate (parts : List (List Char)) :
    weight (parts.map String.ofList) ≤ (['/'].intercalate parts).length + 1 := by
  induction parts with
  | nil => simp
  | cons part parts ih =>
    have hpart : (if String.ofList part = "" then 0 else (String.ofList part).length + 1) ≤
        part.length + 1 := by
      split <;> simp
    cases parts with
    | nil =>
      simp only [List.map_cons, List.map_nil, weight_cons, weight_nil, List.intercalate_singleton]
      omega
    | cons next parts =>
      rw [List.intercalate_cons_cons]
      simp only [List.map_cons, weight_cons, List.length_append, List.length_singleton]
        at ih hpart ⊢
      omega

theorem weight_splitPath (path : String) : weight (splitPath path) ≤ path.length + 1 := by
  have h := weight_intercalate (path.toList.splitOn '/')
  rwa [List.intercalate_splitOn, String.length_toList] at h

/-- Slashes before and after a path weigh nothing. -/
theorem weight_slashes (before after : Nat) (path : List Char) :
    weight (splitPath (String.ofList
      (List.replicate before '/' ++ path ++ List.replicate after '/'))) =
      weight (splitPath (String.ofList path)) := by
  have hafter : weight (splitPath (String.ofList (path ++ List.replicate after '/'))) =
      weight (splitPath (String.ofList path)) := by
    induction after with
    | zero => simp
    | succ after ih =>
      have hsplit := List.splitOn_append_cons_self (a := '/') (path ++ List.replicate after '/') []
      rw [List.replicate_succ', ← List.append_assoc, splitPath, String.toList_ofList, hsplit]
      simpa [splitPath] using ih
  rw [← hafter]
  induction before with
  | zero => simp
  | succ before ih =>
    have hsplit := List.splitOn_append_cons_self (a := '/') []
      (List.replicate before '/' ++ path ++ List.replicate after '/')
    rw [List.nil_append] at hsplit
    rw [List.replicate_succ, List.cons_append, List.cons_append, splitPath, String.toList_ofList,
      hsplit]
    simpa [splitPath] using ih

end length

/-- Slashes, and what they stand before. -/
theorem leading_slashes (path : List Char) :
    ∃ before rest, path = List.replicate before '/' ++ rest ∧ rest.head? ≠ some '/' := by
  induction path with
  | nil => exact ⟨0, [], by simp⟩
  | cons c path ih =>
    by_cases hc : c = '/'
    · obtain ⟨before, rest, hpath, hrest⟩ := ih
      refine ⟨before + 1, rest, ?_, hrest⟩
      rw [List.replicate_succ, List.cons_append, ← hpath, hc]
    · exact ⟨0, c :: path, by simp, by simpa using hc⟩

theorem rdropWhile_slashes (path : List Char) (after : Nat) :
    (path ++ List.replicate after '/').rdropWhile (· = '/') = path.rdropWhile (· = '/') := by
  induction after with
  | zero => simp
  | succ after ih =>
    rw [List.replicate_succ', ← List.append_assoc, List.rdropWhile_concat_pos _ _ _ (by simp), ih]

/-- A path that is not only slashes, between the slashes before and after it. -/
theorem slashes_split (path : List Char) (h : path.all (· = '/') = false) :
    ∃ before after inner,
      path = List.replicate before '/' ++ inner ++ List.replicate after '/' ∧ inner ≠ [] ∧
      inner.head? ≠ some '/' ∧ stripped path = List.replicate before '/' ++ inner := by
  obtain ⟨before, rest, hpath, hrest⟩ := leading_slashes path
  obtain ⟨after, rinner, hreverse, hlast⟩ := leading_slashes rest.reverse
  have hinner : rest = rinner.reverse ++ List.replicate after '/' := by
    rw [← List.reverse_reverse rest, hreverse]
    simp
  have hall : path = List.replicate before '/' ++ rinner.reverse ++ List.replicate after '/' := by
    rw [hpath, hinner, List.append_assoc]
  cases rinner with
  | nil =>
    rw [hall] at h
    simp at h
  | cons c rinner =>
    have hc : c ≠ '/' := by simpa using hlast
    have hstrip : stripped path = List.replicate before '/' ++ (c :: rinner).reverse := by
      have hdrop : path.rdropWhile (· = '/') =
          List.replicate before '/' ++ (c :: rinner).reverse := by
        rw [hall, rdropWhile_slashes, List.reverse_cons, ← List.append_assoc,
          List.rdropWhile_concat_neg _ _ _ (by simpa using hc)]
      rw [stripped, h]
      exact hdrop
    refine ⟨before, after, (c :: rinner).reverse, hall, by simp, ?_, hstrip⟩
    cases hr : rinner.reverse with
    | nil => simpa [hr] using hc
    | cons d inner =>
      rw [hinner] at hrest
      simpa [hr] using hrest

theorem initialSlashes_bounds (path : String) (before : Nat) (rest : List Char)
    (hpath : path.toList = List.replicate before '/' ++ rest) (hrest : rest.head? ≠ some '/') :
    initialSlashes path ≤ before ∧ (before ≠ 0 → initialSlashes path ≠ 0) := by
  unfold initialSlashes
  rw [hpath]
  rcases before with _ | _ | _ | before
  · cases rest with
    | nil => simp
    | cons c rest =>
      have hc : c ≠ '/' := by simpa using hrest
      simp [hc]
  · cases rest with
    | nil => simp
    | cons c rest =>
      have hc : c ≠ '/' := by simpa using hrest
      simp [hc]
  · cases rest with
    | nil => simp
    | cons c rest =>
      have hc : c ≠ '/' := by simpa using hrest
      simp [hc]
  · simp [List.replicate_succ]

theorem normComponents_mem (path : String) : "" ∉ normComponents path := by
  have h := pushes_mem (isabs path) (splitPath path) [] (by simp)
  simpa [normComponents] using h

theorem normComponents_weight (path : String) :
    weight (normComponents path) ≤ weight (splitPath path) := by
  have h := pushes_weight (isabs path) (splitPath path) []
  rw [normComponents, weight_reverse]
  simpa using h

theorem isabs_before (path : String) (before : Nat) (rest : List Char)
    (hpath : path.toList = List.replicate before '/' ++ rest) (hrest : rest.head? ≠ some '/') :
    isabs path = true ↔ before ≠ 0 := by
  cases before with
  | zero => simpa [isabs, hpath] using hrest
  | succ before => simp [isabs, hpath, List.replicate_succ]

theorem initialSlashes_ne_zero (path : String) (h : isabs path = true) :
    initialSlashes path ≠ 0 := by
  obtain ⟨before, rest, hpath, hrest⟩ := leading_slashes path.toList
  have hbefore := (isabs_before path before rest hpath hrest).mp h
  exact (initialSlashes_bounds path before rest hpath hrest).2 hbefore

/-- The text of a path that is absolute is its slashes and its components. -/
theorem normpath_absolute (path : String) (h : isabs path = true) :
    normpath path = String.ofList (List.replicate (initialSlashes path) '/') ++
      joinPath (normComponents path) := by
  have hslashes := initialSlashes_ne_zero path h
  unfold normpath
  rw [if_neg]
  intro he
  have hlength := congrArg String.length he
  simp only [String.length_append, String.length_ofList, List.length_replicate,
    String.length_empty] at hlength
  omega

/-- The absolute path is not longer than the path. -/
theorem normpath_length (path : String) (h : isabs path = true) :
    (normpath path).length ≤ (stripped path.toList).length := by
  have htext := congrArg String.length (normpath_absolute path h)
  have hkept := normComponents_weight path
  have hjoin := joinPath_length (normComponents path) (normComponents_mem path)
  rw [String.length_append, String.length_ofList, List.length_replicate] at htext
  cases hall : path.toList.all (· = '/') with
  | true =>
    have hslashes : path.toList = List.replicate path.toList.length '/' := by
      rw [List.eq_replicate_iff]
      exact ⟨rfl, by simpa using hall⟩
    have hbounds := initialSlashes_bounds path path.toList.length []
      (by simpa using hslashes) (by simp)
    have hnone : weight (splitPath path) = 0 := by
      have hweight := weight_slashes path.toList.length 0 []
      rw [List.append_nil, List.replicate_zero, List.append_nil, ← hslashes,
        String.ofList_toList] at hweight
      rw [hweight]
      decide
    have hempty : normComponents path = [] := by
      by_contra hne
      have hlength := hjoin hne
      omega
    rw [htext, hempty, stripped, if_pos hall]
    simpa [joinPath] using hbounds.1
  | false =>
    obtain ⟨before, after, inner, hpath, hne, hhead, hstrip⟩ :=
      slashes_split path.toList hall
    have hrest : (inner ++ List.replicate after '/').head? ≠ some '/' := by
      rw [List.head?_append_of_ne_nil _ hne]
      exact hhead
    rw [List.append_assoc] at hpath
    have hbounds := initialSlashes_bounds path before _ hpath hrest
    have hweight := weight_slashes before after inner
    rw [List.append_assoc, ← hpath, String.ofList_toList] at hweight
    have hinner := weight_splitPath (String.ofList inner)
    rw [String.length_ofList] at hinner
    rw [htext, hstrip, List.length_append, List.length_replicate]
    by_cases hcomps : normComponents path = []
    · have hpos := List.length_pos_of_ne_nil hne
      rw [hcomps]
      simp only [joinPath, String.length_empty]
      omega
    · have hlength := hjoin hcomps
      omega

section prefixes

theorem nodeName_head (name : String) (h : IsNodeName name) : isabs name = false := by
  rw [isabs, decide_eq_false_iff_not]
  exact fun hhead => h.2 (List.mem_of_head? hhead)

theorem join_name (dirpath name : String) (h : IsNodeName name) :
    ∃ slash, join dirpath name = dirpath ++ slash ++ name ∧
      (slash = "" ∧ (dirpath = "" ∨ dirpath.toList.getLast? = some '/') ∨
        slash = "/" ∧ dirpath ≠ "" ∧ dirpath.toList.getLast? ≠ some '/') := by
  have habs := nodeName_head name h
  unfold join
  rw [if_neg (by simp [habs])]
  by_cases hlast : dirpath = "" ∨ dirpath.toList.getLast? = some '/'
  · exact ⟨"", by rw [if_pos hlast, String.append_empty], Or.inl ⟨rfl, hlast⟩⟩
  · exact ⟨"/", by rw [if_neg hlast], Or.inr ⟨rfl, not_or.mp hlast⟩⟩

theorem stripped_slash (path : List Char) (h : path ≠ []) (hlast : path.getLast? ≠ some '/') :
    stripped (path ++ ['/']) = path ∧ stripped path = path := by
  obtain ⟨front, c, rfl⟩ := (List.eq_nil_or_concat' path).resolve_left h
  have hc : c ≠ '/' := by simpa using hlast
  have hdrop : (front ++ [c]).rdropWhile (· = '/') = front ++ [c] :=
    List.rdropWhile_concat_neg _ _ _ (by simpa using hc)
  constructor
  · rw [stripped, if_neg (by simp [hc]), List.rdropWhile_concat_pos _ _ _ (by simp), hdrop]
  · rw [stripped, if_neg (by simp [hc]), hdrop]

/-- The directory of a name is the path that the name was joined to. -/
theorem dirname_join (dirpath name : String) (h : IsNodeName name) (hne : dirpath ≠ "") :
    (dirname (join dirpath name)).toList = stripped dirpath.toList := by
  have htext : dirpath.toList ≠ [] := by simpa using hne
  obtain ⟨slash, hjoin, ⟨rfl, hor⟩ | ⟨rfl, -, hlast⟩⟩ := join_name dirpath name h
  · have hslash := hor.resolve_left hne
    obtain ⟨front, c, hfront⟩ := (List.eq_nil_or_concat' dirpath.toList).resolve_left htext
    have hc : c = '/' := by simpa [hfront] using hslash
    have hhead := rdropWhile_slash front name.toList h.2
    rw [dirname, hjoin, String.append_empty, String.toList_append, hfront, hc,
      List.append_assoc, List.singleton_append, hhead, String.toList_ofList]
    rfl
  · have hhead := rdropWhile_slash dirpath.toList name.toList h.2
    rw [dirname, hjoin, String.toList_append, String.toList_append,
      show "/".toList = ['/'] from rfl, List.append_assoc, List.singleton_append, hhead,
      String.toList_ofList, (stripped_slash _ htext hlast).2]
    exact (stripped_slash _ htext hlast).1

theorem stripped_start (path : List Char) : stripped path <+: path := by
  unfold stripped
  split
  · exact List.prefix_rfl
  · exact List.rdropWhile_prefix _ _

theorem stripped_ne_nil (path : List Char) (h : path ≠ []) : stripped path ≠ [] := by
  cases hall : path.all (· = '/') with
  | true => simpa [stripped, hall] using h
  | false =>
    obtain ⟨before, after, inner, -, hne, -, hstrip⟩ := slashes_split path hall
    simp [hstrip, hne]

theorem isabs_normpath (path : String) (h : isabs path = true) : isabs (normpath path) = true := by
  obtain ⟨n, hn⟩ := Nat.exists_eq_succ_of_ne_zero (initialSlashes_ne_zero path h)
  simp [isabs, normpath_absolute path h, hn, List.replicate_succ]

theorem isabs_join (cwd path : String) (h : isabs cwd = true) : isabs (join cwd path) = true := by
  unfold join
  split
  · assumption
  · have hne : cwd.toList ≠ [] := by
      intro he
      simp [isabs, he] at h
    simp only [isabs, decide_eq_true_eq] at h ⊢
    split
    · rw [String.toList_append, List.head?_append_of_ne_nil _ hne, h]
    · rw [String.toList_append, String.toList_append, List.append_assoc,
        List.head?_append_of_ne_nil _ hne, h]

theorem isabs_abspath (cwd path : String) (h : isabs cwd = true) :
    isabs (abspath cwd path) = true := by
  unfold abspath
  split
  · exact isabs_normpath path (by assumption)
  · exact isabs_normpath _ (isabs_join cwd path h)

/-- Whether a text starts with the absolute path of a path that it starts with is the same for all
such texts. -/
theorem abspath_start (cwd path : String) (text : List Char) (hcwd : isabs cwd = true)
    (hne : path ≠ "") (htext : stripped path.toList <+: text) :
    (abspath cwd path).toList <+: text ↔ (abspath cwd path).toList <+: path.toList := by
  have hpath := stripped_start path.toList
  have hkept := stripped_ne_nil path.toList (by simpa using hne)
  by_cases habs : isabs path = true
  · have hlength : (abspath cwd path).toList.length ≤ (stripped path.toList).length := by
      rw [String.length_toList, abspath, if_pos habs]
      exact normpath_length path habs
    constructor
    · exact fun h => (List.prefix_of_prefix_length_le h htext hlength).trans hpath
    · exact fun h => (List.prefix_of_prefix_length_le h hpath hlength).trans htext
  · have hslash := isabs_abspath cwd path hcwd
    have hfirst (other : List Char) (hother : stripped path.toList <+: other) :
        ¬ (abspath cwd path).toList <+: other := by
      intro h
      obtain ⟨c, kept, hc⟩ := List.exists_cons_of_ne_nil hkept
      have hhead : path.toList.head? = some c := by
        obtain ⟨rest, hrest⟩ := hpath
        rw [← hrest, hc]
        rfl
      have hstart : other.head? = some c := by
        obtain ⟨rest, hrest⟩ := hother
        rw [← hrest, hc]
        rfl
      obtain ⟨rest, hrest⟩ := h
      simp only [isabs, decide_eq_true_eq] at hslash
      have hsome : ((abspath cwd path).toList ++ rest).head? = (abspath cwd path).toList.head? :=
        List.head?_append_of_ne_nil _ (by intro he; simp [he] at hslash)
      rw [hrest, hstart, hslash] at hsome
      exact habs (by simp [isabs, hhead, hsome])
    exact ⟨fun h => absurd h (hfirst text htext), fun h => absurd h (hfirst _ hpath)⟩

end prefixes

section names

theorem joinPath_toList (names : List String) :
    (joinPath names).toList = ['/'].intercalate (names.map String.toList) := by
  induction names with
  | nil => rfl
  | cons name names ih =>
    cases names with
    | nil => simp [joinPath]
    | cons next names =>
      simp only [List.map_cons] at ih
      simp only [joinPath, String.toList_append, ih, List.map_cons, List.intercalate_cons_cons]
      simp

theorem splitPath_joinPath (names : List String) (hne : names ≠ [])
    (h : ∀ name ∈ names, IsNodeName name) : splitPath (joinPath names) = names := by
  have hparts : ∀ part ∈ names.map String.toList, '/' ∉ part := by
    intro part hpart
    obtain ⟨name, hname, rfl⟩ := List.mem_map.mp hpart
    exact (h name hname).2
  rw [splitPath, joinPath_toList, List.splitOn_intercalate '/' hparts (by simpa using hne)]
  simp

theorem splitPath_slash (path : String) : splitPath (path ++ "/") = splitPath path ++ [""] := by
  have hsplit := List.splitOn_append_cons_self (a := '/') path.toList []
  rw [splitPath, String.toList_append, show "/".toList = ['/'] from rfl, hsplit]
  simp [splitPath]

theorem joinPath_snoc (names : List String) (name : String) (hne : names ≠ []) :
    joinPath (names ++ [name]) = joinPath names ++ "/" ++ name := by
  induction names with
  | nil => exact absurd rfl hne
  | cons first names ih =>
    cases names with
    | nil => rfl
    | cons next names =>
      have hrest := ih (by simp)
      simp only [List.cons_append] at hrest
      simp only [List.cons_append, joinPath, hrest, String.append_assoc]

theorem joinPath_last (front : List String) (name : String) (hne : name ≠ "")
    (hlast : name.toList.getLast? ≠ some '/') :
    joinPath (front ++ [name]) ≠ "" ∧ (joinPath (front ++ [name])).toList.getLast? ≠ some '/' := by
  cases front with
  | nil => exact ⟨hne, hlast⟩
  | cons first front =>
    rw [joinPath_snoc _ _ (by simp)]
    refine ⟨by simp [hne], ?_⟩
    rw [String.toList_append, List.getLast?_append_of_ne_nil _ (by simpa using hne)]
    exact hlast

theorem nodeName_last (name : String) (h : IsNodeName name) :
    name.toList.getLast? ≠ some '/' := by
  obtain ⟨front, c, hc, hslash⟩ := nodeName_snoc name h
  simpa [hc] using hslash

theorem joinPath_cons (name : String) (names : List String) :
    ∃ more, joinPath (name :: names) = name ++ more ∧
      (names = [] ∧ more = "" ∨ names ≠ [] ∧ more = "/" ++ joinPath names) := by
  cases names with
  | nil => exact ⟨"", by simp [joinPath], Or.inl ⟨rfl, rfl⟩⟩
  | cons next names =>
    exact ⟨"/" ++ joinPath (next :: names), by simp [joinPath, String.append_assoc],
      Or.inr ⟨by simp, rfl⟩⟩

theorem joinPath_head (name : String) (names : List String) (h : name ≠ "") :
    (joinPath (name :: names)).toList.head? = name.toList.head? := by
  obtain ⟨more, hmore, -⟩ := joinPath_cons name names
  rw [hmore, String.toList_append, List.head?_append_of_ne_nil _ (by simpa using h)]

theorem joinPath_ne_empty (name : String) (names : List String) (h : name ≠ "") :
    joinPath (name :: names) ≠ "" := by
  obtain ⟨more, hmore, -⟩ := joinPath_cons name names
  simp [hmore, h]

/-- A path of names that stand for themselves is normal. -/
theorem normpath_names (names : List String) (hne : names ≠ [])
    (h : ∀ name ∈ names, IsNodeName name ∧ name ≠ "." ∧ name ≠ "..") :
    normpath (joinPath names) = joinPath names := by
  have hnode : ∀ name ∈ names, IsNodeName name := fun name hname => (h name hname).1
  obtain ⟨first, rest, rfl⟩ := List.exists_cons_of_ne_nil hne
  have hfirst := hnode first (by simp)
  have hhead := joinPath_head first rest hfirst.1
  have habs : isabs (joinPath (first :: rest)) = false := by
    rw [isabs, hhead]
    exact nodeName_head first hfirst
  have hslashes : initialSlashes (joinPath (first :: rest)) = 0 := by
    obtain ⟨before, path, hpath, hpathhead⟩ := leading_slashes (joinPath (first :: rest)).toList
    have hbefore := isabs_before _ before path hpath hpathhead
    rw [habs] at hbefore
    have hbounds := initialSlashes_bounds _ before path hpath hpathhead
    have hzero : before = 0 := by simpa using hbefore
    omega
  have hpush (kept comps : List String)
      (hcomps : ∀ comp ∈ comps, IsNodeName comp ∧ comp ≠ "." ∧ comp ≠ "..") :
      comps.foldl (pushComponent false) kept = comps.reverse ++ kept := by
    induction comps generalizing kept with
    | nil => rfl
    | cons comp comps ih =>
      obtain ⟨⟨hcomp, -⟩, hdot, hdots⟩ := hcomps comp (by simp)
      have hone : pushComponent false kept comp = comp :: kept := by
        simp [pushComponent, hcomp, hdot, hdots]
      rw [List.foldl_cons, hone, ih (comp :: kept) fun c hc => hcomps c (by simp [hc])]
      simp
  have hcomponents : normComponents (joinPath (first :: rest)) = first :: rest := by
    rw [normComponents, splitPath_joinPath _ hne hnode, habs, hpush [] _ h]
    simp
  have hempty := joinPath_ne_empty first rest hfirst.1
  simp [normpath, hslashes, hcomponents, hempty]

/-- A name joined to names that are joined. -/
theorem join_joinPath (names : List String) (name : String) (hlast : names ≠ [] →
    joinPath names ≠ "" ∧ (joinPath names).toList.getLast? ≠ some '/') (hname : IsNodeName name) :
    join (joinPath names) name = joinPath (names ++ [name]) := by
  obtain ⟨slash, hjoin, hor⟩ := join_name (joinPath names) name hname
  cases names with
  | nil =>
    rcases hor with ⟨rfl, -⟩ | ⟨-, h, -⟩
    · rw [hjoin]
      simp [joinPath]
    · exact absurd rfl h
  | cons first names =>
    obtain ⟨hne, hslash⟩ := hlast (by simp)
    rw [joinPath_snoc _ _ (by simp), hjoin]
    rcases hor with ⟨-, h⟩ | ⟨rfl, -⟩
    · exact absurd (h.resolve_left hne) hslash
    · rfl

end names

end Juju.Base
