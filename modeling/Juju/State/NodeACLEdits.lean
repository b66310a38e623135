import Juju.State.NodeACL

namespace Juju.State
open Juju.Base

/-- The entry has all of the permissions, as bits. -/
def ACE.Includes (ace : ACE) (perms : Nat) : Prop := perms &&& ace.perms = perms

instance (ace : ACE) (perms : Nat) : Decidable (ace.Includes perms) :=
  inferInstanceAs (Decidable (_ = _))

/-- Access is decided by the whole identity. -/
def Granted (acl : List ACE) (ace : ACE) : Prop :=
  ∃ aclAce ∈ acl, aclAce.id = ace.id ∧ aclAce.Includes ace.perms

/-- The name has an entry at most. -/
def NamedOnce (acl : List ACE) (name : String) : Prop :=
  (acl.filter fun ace => principalName ace.id = name).length ≤ 1

instance (acl : List ACE) (ace : ACE) : Decidable (Granted acl ace) :=
  inferInstanceAs (Decidable (∃ aclAce ∈ acl, aclAce.id = ace.id ∧ _))

instance (acl : List ACE) (name : String) : Decidable (NamedOnce acl name) :=
  inferInstanceAs (Decidable (_ ≤ 1))

/-- The first entry of the name has the identity that is granted, if it does not have it already;
where the name has no entry, there is no colon in it. -/
def GrantFits (acl : List ACE) (name : String) (ace : ACE) : Prop :=
  match acl.find? fun aclAce => principalName aclAce.id = name with
  | none => ':' ∉ name.toList
  | some first => first.id = ace.id ∨ Granted acl ace

/-- An entry that has been given the permissions of `ace`. -/
def ACE.given (aclAce ace : ACE) : ACE := { aclAce with perms := ace.perms ||| aclAce.perms }

section edits

variable (acl : List ACE) (name : String) (ace : ACE)

theorem principalIndex_none : principalIndex acl name = none ↔ NotNamed acl name := by
  rw [principalIndex, List.findIdx?_eq_none_iff]
  simp [NotNamed]

/-- The entry at the index is the first of the name. -/
theorem principalIndex_some (index : Nat) (h : principalIndex acl name = some index) :
    ∃ before first after, acl = before ++ first :: after ∧ before.length = index ∧
      principalName first.id = name ∧ NotNamed before name := by
  induction acl generalizing index with
  | nil => cases h
  | cons head acl ih =>
    rw [principalIndex, List.findIdx?_cons] at h
    split at h
    · rename_i hname
      obtain rfl := Option.some.inj h
      refine ⟨[], head, acl, rfl, rfl, by simpa using hname, ?_⟩
      intro ace hace
      cases hace
    · rename_i hname
      obtain ⟨i, hi, rfl⟩ := Option.map_eq_some_iff.mp h
      obtain ⟨before, first, after, rfl, rfl, hfirst, hbefore⟩ := ih i hi
      refine ⟨head :: before, first, after, rfl, rfl, hfirst, ?_⟩
      exact List.forall_mem_cons.mpr ⟨by simpa using hname, hbefore⟩

theorem notNamed_find (before after : List ACE) (first : ACE) (hfirst : principalName first.id = name)
    (hbefore : NotNamed before name) :
    (before ++ first :: after).find? (fun aclAce => principalName aclAce.id = name) = some first := by
  rw [List.find?_append, List.find?_eq_none.mpr fun e he => by simpa using hbefore e he]
  simp [hfirst]

theorem others_append (acl acl' : List ACE) (name : String) :
    AclNode.others (acl ++ acl') name = AclNode.others acl name ++ AclNode.others acl' name :=
  List.filter_append ..

theorem others_named (acl : List ACE) (h : principalName ace.id = name) :
    AclNode.others (ace :: acl) name = AclNode.others acl name := by
  simp [AclNode.others, h]

/-- What has been given is not given again. -/
theorem given_given (aclAce : ACE) : (aclAce.given ace).given ace = aclAce.given ace := by
  simp only [ACE.given, ← Nat.or_assoc, Nat.or_self]

theorem given_includes (aclAce : ACE) : (aclAce.given ace).Includes ace.perms := by
  apply Nat.eq_of_testBit_eq
  intro i
  simp only [ACE.given, Nat.testBit_and, Nat.testBit_or]
  cases ace.perms.testBit i <;> cases aclAce.perms.testBit i <;> rfl

theorem remove_edit : (NotNamed acl name ∧ (AclChange.remove name).edit acl = acl) ∨
    ∃ before first after, acl = before ++ first :: after ∧ principalName first.id = name ∧
      NotNamed before name ∧ (AclChange.remove name).edit acl = before ++ after := by
  cases hindex : principalIndex acl name with
  | none => exact Or.inl ⟨(principalIndex_none acl name).mp hindex, by simp [AclChange.edit, hindex]⟩
  | some index =>
    obtain ⟨before, first, after, rfl, rfl, hfirst, hbefore⟩ :=
      principalIndex_some acl name index hindex
    refine Or.inr ⟨before, first, after, rfl, hfirst, hbefore, ?_⟩
    simp only [AclChange.edit, hindex]
    rw [List.eraseIdx_append_of_length_le (Nat.le_refl _), Nat.sub_self, List.eraseIdx_cons_zero]

theorem add_edit : (NotNamed acl name ∧ (AclChange.add name ace).edit acl = acl ++ [ace]) ∨
    ∃ before first after, acl = before ++ first :: after ∧ principalName first.id = name ∧
      NotNamed before name ∧ (AclChange.add name ace).edit acl =
        before ++ first.given ace :: after := by
  cases hindex : principalIndex acl name with
  | none => exact Or.inl ⟨(principalIndex_none acl name).mp hindex, by simp [AclChange.edit, hindex]⟩
  | some index =>
    obtain ⟨before, first, after, rfl, rfl, hfirst, hbefore⟩ :=
      principalIndex_some acl name index hindex
    refine Or.inr ⟨before, first, after, rfl, hfirst, hbefore, ?_⟩
    simp only [AclChange.edit, hindex]
    rw [List.modify_eq_take_cons_drop (by simp)]
    simp [ACE.given]

/-- A removal keeps the entries of the others, and takes all of the name where it has one. -/
theorem remove_complete_iff : (NotNamed ((AclChange.remove name).edit acl) name ∧
    AclNode.others ((AclChange.remove name).edit acl) name = AclNode.others acl name) ↔
      NamedOnce acl name := by
  have hfilter (acl : List ACE) (h : NotNamed acl name) :
      acl.filter (fun ace => principalName ace.id = name) = [] :=
    List.filter_eq_nil_iff.mpr fun ace hace => by simpa using h ace hace
  rcases remove_edit acl name with ⟨hnot, hedit⟩ | ⟨before, first, after, rfl, hfirst, hbefore, hedit⟩
  · rw [hedit]
    refine ⟨fun _ => ?_, fun _ => ⟨hnot, rfl⟩⟩
    rw [NamedOnce, hfilter acl hnot]
    exact Nat.zero_le 1
  · have hothers : AclNode.others (before ++ after) name =
        AclNode.others (before ++ first :: after) name := by
      rw [others_append, others_append, others_named name first after hfirst]
    have honce : NamedOnce (before ++ first :: after) name ↔ NotNamed after name := by
      have hone (n : Nat) : n + 1 ≤ 1 ↔ n = 0 := by omega
      rw [NamedOnce, List.filter_append, hfilter before hbefore, List.nil_append,
        List.filter_cons_of_pos (by simpa using hfirst), List.length_cons, hone,
        List.length_eq_zero_iff, List.filter_eq_nil_iff]
      simp [NotNamed]
    rw [hedit, hothers, honce]
    constructor
    · rintro ⟨hnot, -⟩ ace hace
      exact hnot ace (List.mem_append_right _ hace)
    · refine fun hafter => ⟨fun ace hace => ?_, rfl⟩
      rcases List.mem_append.mp hace with hace | hace
      · exact hbefore ace hace
      · exact hafter ace hace

/-- A grant keeps the entries of the others, grants what it says and has no more to do, where it
fits the ACL. -/
theorem add_effective_iff (hname : principalName ace.id = name ↔ ':' ∉ name.toList) :
    (Granted ((AclChange.add name ace).edit acl) ace ∧
      AclNode.others ((AclChange.add name ace).edit acl) name = AclNode.others acl name ∧
      (AclChange.add name ace).edit ((AclChange.add name ace).edit acl) =
        (AclChange.add name ace).edit acl) ↔ GrantFits acl name ace := by
  rcases add_edit acl name ace with ⟨hnot, hedit⟩ | ⟨before, first, after, rfl, hfirst, hbefore, hedit⟩
  · have hfind : acl.find? (fun aclAce => principalName aclAce.id = name) = none :=
      List.find?_eq_none.mpr fun e he => by simpa using hnot e he
    have hfits : GrantFits acl name ace ↔ principalName ace.id = name := by
      rw [GrantFits, hfind, hname]
    rw [hedit, hfits]
    constructor
    · rintro ⟨-, hothers, -⟩
      by_contra hne
      have hlength := congrArg List.length hothers
      rw [others_append] at hlength
      simp [AclNode.others, hne] at hlength
    · intro hnamed
      refine ⟨⟨ace, by simp, rfl, Nat.and_self _⟩, ?_, ?_⟩
      · rw [others_append, others_named name ace [] hnamed]
        simp [AclNode.others]
      · rcases add_edit (acl ++ [ace]) name ace with ⟨hnot', -⟩ |
          ⟨before, first, after, hsplit, hfirst, hbefore, hagain⟩
        · exact absurd hnamed (hnot' ace (by simp))
        · -- the entry just added is the first of the name
          have hsame := notNamed_find name acl [] ace hnamed hnot
          rw [hsplit, notNamed_find name before after first hfirst hbefore] at hsame
          obtain rfl := Option.some.inj hsame
          rw [hagain, hsplit]
          simp [ACE.given]
  · have hfits : GrantFits (before ++ first :: after) name ace ↔
        first.id = ace.id ∨ Granted (before ++ first :: after) ace := by
      rw [GrantFits, notNamed_find name before after first hfirst hbefore]
    have hgiven : principalName (first.given ace).id = name := hfirst
    have hothers : AclNode.others (before ++ first.given ace :: after) name =
        AclNode.others (before ++ first :: after) name := by
      rw [others_append, others_append, others_named name first after hfirst,
        others_named name (first.given ace) after hgiven]
    have hagain : (AclChange.add name ace).edit (before ++ first.given ace :: after) =
        before ++ first.given ace :: after := by
      rcases add_edit (before ++ first.given ace :: after) name ace with ⟨hnot, -⟩ |
        ⟨before', first', after', hsplit, hfirst', hbefore', hagain⟩
      · exact absurd hgiven (hnot _ (List.mem_append_right _ List.mem_cons_self))
      · have hsame := notNamed_find name before after (first.given ace) hgiven hbefore
        rw [hsplit, notNamed_find name before' after' first' hfirst' hbefore'] at hsame
        obtain rfl := Option.some.inj hsame
        rw [hagain, hsplit, given_given]
    rw [hedit, hfits]
    constructor
    · rintro ⟨⟨e, he, hid, hperms⟩, -, -⟩
      rcases List.mem_append.mp he with he | he
      · exact Or.inr ⟨e, List.mem_append_left _ he, hid, hperms⟩
      · rcases List.mem_cons.mp he with rfl | he
        · exact Or.inl hid
        · exact Or.inr ⟨e, List.mem_append_right _ (List.mem_cons_of_mem _ he), hid, hperms⟩
    · intro hfit
      refine ⟨?_, hothers, hagain⟩
      have hfirstGiven : first.id = ace.id → Granted (before ++ first.given ace :: after) ace :=
        fun hid => ⟨_, List.mem_append_right _ List.mem_cons_self, hid, given_includes ace first⟩
      rcases hfit with hid | ⟨e, he, hid, hperms⟩
      · exact hfirstGiven hid
      · rcases List.mem_append.mp he with he | he
        · exact ⟨e, List.mem_append_left _ he, hid, hperms⟩
        · rcases List.mem_cons.mp he with rfl | he
          · exact hfirstGiven hid
          · exact ⟨e, List.mem_append_right _ (List.mem_cons_of_mem _ he), hid, hperms⟩

end edits

section runs

variable {C : Type} [DecidableEq C] (digest : String → String)

/-- The change adds an entry of a token of the principal that it names. -/
def AclChange.Tokened : AclChange → Prop
  | add name ace => ∃ password permission more,
      ace = makeAce (getToken digest name password) permission more
  | remove _ => True

/-- What a call keeps: the ACL read is the one that is there while its version is. -/
def AclStage.Kept (acl : List ACE) (aversion : Nat) : AclStage → Prop
  | .reading change => change.Tokened digest
  | .setting change read version =>
    change.Tokened digest ∧ version ≤ aversion ∧ (version = aversion → read = acl)
  | _ => True

/-- What holds of a node whose ACL is edited by calls, and by others, in any order. -/
structure AclKept (m : AclNode C) : Prop where
  tokens : ∀ name token, m.tokens.lookup name = some token →
    ∃ password, token = getToken digest name password
  stages : ∀ c, (m.stages c).Kept digest m.acl m.aversion

theorem stage_kept (m : AclNode C) (h : AclKept digest m) (c : C) (stage : AclStage)
    (hstage : stage.Kept digest m.acl m.aversion) : AclKept digest (m.setStage c stage) := by
  refine ⟨h.tokens, fun d => ?_⟩
  simp only [AclNode.setStage, Function.update_apply]
  split
  · exact hstage
  · exact h.stages d

omit [DecidableEq C] in
/-- An ACL that is set has a version that no call has read. -/
theorem acl_kept (m : AclNode C) (h : AclKept digest m) (acl : List ACE) :
    AclKept digest { m with acl := acl, aversion := m.aversion + 1 } := by
  refine ⟨h.tokens, fun c => ?_⟩
  have hstage := h.stages c
  show (m.stages c).Kept digest acl (m.aversion + 1)
  cases hc : m.stages c with
  | setting change read version =>
    rw [hc] at hstage
    obtain ⟨htokened, hle, -⟩ := hstage
    exact ⟨htokened, by omega, by omega⟩
  | reading change =>
    rw [hc] at hstage
    exact hstage
  | _ => trivial

theorem step_kept (m m' : AclNode C) (e : AclEvent C) (h : AclKept digest m)
    (hs : m.step digest e = some m') : AclKept digest m' := by
  cases e with
  | call c call =>
    simp only [AclNode.step] at hs
    have hstart : call.start.Kept digest m.acl m.aversion := by
      cases call <;> trivial
    split at hs
    · cases hs
      exact stage_kept digest m h c _ hstart
    · cases hs
      exact stage_kept digest m h c _ hstart
    · cases hs
  | getToken c =>
    simp only [AclNode.step] at hs
    split at hs
    · rename_i name permission more hc
      split at hs
      · cases hs
        exact stage_kept digest m h c _ trivial
      · rename_i token htoken
        cases hs
        obtain ⟨password, rfl⟩ := h.tokens name token htoken
        exact stage_kept digest m h c _ ⟨password, permission, more, rfl⟩
    · cases hs
  | getAcl c found =>
    simp only [AclNode.step] at hs
    have hc := h.stages c
    split at hs
    · rename_i change hstage
      rw [hstage] at hc
      split at hs
      · cases hs
        exact stage_kept digest m h c _ ⟨hc, Nat.le_refl _, fun _ => rfl⟩
      · cases hs
        exact stage_kept digest m h c _ trivial
    · cases hs
  | setAcl c =>
    simp only [AclNode.step] at hs
    have hc := h.stages c
    split at hs
    · rename_i change read version hstage
      rw [hstage] at hc
      split at hs
      · cases hs
        exact stage_kept digest _ (acl_kept digest m h _) c _ trivial
      · cases hs
        exact stage_kept digest m h c _ hc.1
    · cases hs
  | fails c =>
    simp only [AclNode.step] at hs
    split at hs
    · cases hs
    · cases hs
    · cases hs
      exact stage_kept digest m h c _ trivial
  | addPrincipal name password =>
    cases hs
    refine ⟨fun name' token htoken => ?_, h.stages⟩
    rw [Dict.lookup_insert] at htoken
    split at htoken
    · rename_i hname
      subst hname
      exact ⟨password, (Option.some.inj htoken).symm⟩
    · exact h.tokens name' token htoken
  | removePrincipal name =>
    cases hs
    refine ⟨fun name' token htoken => ?_, h.stages⟩
    rw [Dict.lookup_erase] at htoken
    split at htoken
    · cases htoken
    · exact h.tokens name' token htoken
  | edited acl =>
    cases hs
    exact acl_kept digest m h acl

theorem reachable_kept (m : AclNode C)
    (h : Reachable AclNode.Initial (AclNode.step digest) (fun _ _ => True) m) :
    AclKept digest m := by
  refine reachable_invariant (AclKept digest) (fun m hm => ⟨?_, fun c => ?_⟩)
    (fun m m' e hi _ hs => step_kept digest m m' e hi hs) m h
  · intro name token htoken
    rw [hm.tokens] at htoken
    cases htoken
  · rw [hm.idle c]
    trivial

/-- What is committed is the change of the ACL that is there. -/
theorem commits_edit (m m' : AclNode C) (h : AclKept digest m) (c : C) (change : AclChange)
    (hcommits : m.Commits digest c change m') :
    m'.acl = change.edit m.acl ∧ change.Tokened digest := by
  obtain ⟨⟨read, version, hstage, hversion⟩, hs⟩ := hcommits
  have hc := h.stages c
  rw [hstage] at hc
  simp only [AclNode.step, hstage, if_pos hversion] at hs
  cases hs
  exact ⟨by rw [hc.2.2 hversion]; rfl, hc.1⟩

/-- Whatever else is done to the ACL: when `prohibit` commits, no entry of the name remains and
those of the others are as they were, just when the name had one entry at most. -/
theorem prohibit_complete_iff (m m' : AclNode C)
    (h : Reachable AclNode.Initial (AclNode.step digest) (fun _ _ => True) m) (c : C)
    (name : String) (hcommits : m.Commits digest c (.remove name) m') :
    (NotNamed m'.acl name ∧ AclNode.others m'.acl name = AclNode.others m.acl name) ↔
      NamedOnce m.acl name := by
  rw [(commits_edit digest m m' (reachable_kept digest m h) c _ hcommits).1]
  exact remove_complete_iff m.acl name

/-- When `grant` commits, the token read has the permissions, the others keep theirs, and the
same grant has no more to do, just when the entries of the name fit. -/
theorem grant_effective_iff (m m' : AclNode C)
    (h : Reachable AclNode.Initial (AclNode.step digest) (fun _ _ => True) m) (c : C)
    (name : String) (ace : ACE) (hcommits : m.Commits digest c (.add name ace) m') :
    (Granted m'.acl ace ∧ AclNode.others m'.acl name = AclNode.others m.acl name ∧
      (AclChange.add name ace).edit m'.acl = m'.acl) ↔ GrantFits m.acl name ace := by
  obtain ⟨hacl, password, permission, more, rfl⟩ :=
    commits_edit digest m m' (reachable_kept digest m h) c _ hcommits
  rw [hacl]
  exact add_effective_iff m.acl name _ (principalName_getToken digest name password)

/-- The digests of a few credentials. -/
def knownDigest (credentials : String) : String :=
  if credentials = "admin:secret" then "fvr2cB/fjGeAiX8g1aGhUm3ZICk="
  else if credentials = "zebra:stripes" then "ccd524B3Fl6VO3sle2L/x2rFRTk="
  else if credentials = "zebra:spots" then "P9ZdYH0p82YctA9VWyfpfdu08rM="
  else ""

def adminToken : String := getToken knownDigest "admin" "secret"

/-- A node that a policy has made, whose one rule lets the admin read. -/
def ruledNode : AclNode Unit := ⟨policyAcl [[makeAce adminToken .read []]] adminToken none, 0, ∅,
  fun _ => .idle⟩

def openNode : AclNode Unit := ⟨policyAcl [] adminToken none, 0, ∅, fun _ => .idle⟩

theorem known_reachable (events : List (AclEvent Unit)) (m m' : AclNode Unit) (hm : m.Initial)
    (hs : stepAll (AclNode.step knownDigest) m events = some m') :
    Reachable AclNode.Initial (AclNode.step knownDigest) (fun _ _ => True) m' :=
  reachable_stepAll (fun _ _ => trivial) events m m' (.init m hm) hs

def prohibitAdmin : List (AclEvent Unit) := [.call () (.prohibit "admin"), .getAcl () true]

theorem prohibit_complete_iff_open :
    ∃ m m' : AclNode Unit,
      Reachable AclNode.Initial (AclNode.step knownDigest) (fun _ _ => True) m ∧
      m.Commits knownDigest () (.remove "admin") m' ∧ NotNamed m'.acl "admin" ∧
      AclNode.others m'.acl "admin" = [openAuthAce] := by
  have hrun := known_reachable prohibitAdmin openNode _ ⟨rfl, fun _ => rfl⟩ rfl
  have hcommits := prohibit_complete_iff knownDigest _ _ hrun () "admin" ⟨⟨_, _, rfl, rfl⟩, rfl⟩
  obtain ⟨hnot, hothers⟩ := hcommits.mpr (by decide)
  exact ⟨_, _, hrun, ⟨⟨_, _, rfl, rfl⟩, rfl⟩, hnot, hothers.trans (by decide)⟩

/-- The admin still has all permissions. -/
theorem prohibited_admin_remains :
    ∃ m m' : AclNode Unit,
      Reachable AclNode.Initial (AclNode.step knownDigest) (fun _ _ => True) m ∧
      m.Commits knownDigest () (.remove "admin") m' ∧ ¬ NotNamed m'.acl "admin" ∧
      makeAce adminToken .all [] ∈ m'.acl := by
  have hrun := known_reachable prohibitAdmin ruledNode _ ⟨rfl, fun _ => rfl⟩ rfl
  have hremains : makeAce adminToken .all [] ∈
      (AclChange.remove "admin").edit ruledNode.acl := by decide
  exact ⟨_, _, hrun, ⟨⟨_, _, rfl, rfl⟩, rfl⟩, fun hnot => hnot _ hremains (by decide), hremains⟩

def grantZebra : List (AclEvent Unit) :=
  [.call () (.grant "zebra" .read []), .getToken (), .getAcl () true]

theorem grant_effective_iff_zebra :
    ∃ m m' : AclNode Unit,
      Reachable AclNode.Initial (AclNode.step knownDigest) (fun _ _ => True) m ∧
      m.Commits knownDigest ()
        (.add "zebra" (makeAce (getToken knownDigest "zebra" "stripes") .read [])) m' ∧
      Granted m'.acl (makeAce (getToken knownDigest "zebra" "stripes") .read []) := by
  have hrun := known_reachable ([.addPrincipal "zebra" "stripes"] ++ grantZebra) openNode _
    ⟨rfl, fun _ => rfl⟩ rfl
  have heffective := grant_effective_iff knownDigest _ _ hrun () "zebra" _
    ⟨⟨_, _, rfl, rfl⟩, rfl⟩
  have hfits : ':' ∉ "zebra".toList := by decide
  exact ⟨_, _, hrun, ⟨⟨_, _, rfl, rfl⟩, rfl⟩, (heffective.mpr hfits).1⟩

/-- The zebra has a new password, and the grant goes to the old one. -/
theorem granted_zebra_changed :
    ∃ m m' : AclNode Unit,
      Reachable AclNode.Initial (AclNode.step knownDigest) (fun _ _ => True) m ∧
      m.Commits knownDigest ()
        (.add "zebra" (makeAce (getToken knownDigest "zebra" "spots") .read [])) m' ∧
      ¬ Granted m'.acl (makeAce (getToken knownDigest "zebra" "spots") .read []) := by
  have hrun := known_reachable ([.addPrincipal "zebra" "stripes"] ++ grantZebra ++
    [.setAcl (), .addPrincipal "zebra" "spots"] ++ grantZebra) openNode _ ⟨rfl, fun _ => rfl⟩ rfl
  exact ⟨_, _, hrun, ⟨⟨_, _, rfl, rfl⟩, rfl⟩, by decide⟩

end runs

end Juju.State
