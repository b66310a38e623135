import Juju.Base.ListEdit
import Juju.Base.Runs
import Mathlib.Data.List.Permutation
import Mathlib.Logic.Function.Basic

namespace Juju.State
open Juju.Base

/-- The keys of `PERM_MAP`. -/
inductive Permission where
  | read
  | write
  | delete
  | create
  | admin
  | all

def Permission.mask : Permission → Nat
  | read => 1
  | write => 2
  | create => 4
  | delete => 8
  | admin => 16
  | all => 31

structure ACE where
  id : String
  scheme : String
  perms : Nat
deriving DecidableEq

/-- `make_ace` with at least one permission. -/
def makeAce (identity : String) (permission : Permission) (more : List Permission) : ACE where
  id := identity
  scheme := "digest"
  perms := more.foldl (fun perms p => perms ||| p.mask) permission.mask

def ACE.Allows (ace : ACE) (p : Permission) : Prop := ace.perms &&& p.mask ≠ 0

instance (ace : ACE) (p : Permission) : Decidable (ace.Allows p) :=
  inferInstanceAs (Decidable (_ ≠ _))

/-- `ace["id"].split(":")[0]`. -/
def principalName (identity : String) : String :=
  String.ofList (identity.toList.takeWhile (· ≠ ':'))

/-- A call of `add_member`, for a principal of the token, or of `remove_member`. -/
inductive MemberCall where
  | addMember (token : String)
  | removeMember (name : String)
deriving DecidableEq

/-- The ACL to be set for the one that was read, or none when the call returns at once. -/
def MemberCall.edit : MemberCall → List ACE → Option (List ACE)
  | addMember token, acl =>
    if ∃ ace ∈ acl, ace.id = token then none else some (acl ++ [makeAce token .read []])
  | removeMember name, acl =>
    (acl.find? fun ace => principalName ace.id = name).map acl.erase

/-- What becomes of the ACL when nobody else is there. -/
def MemberCall.run (acl : List ACE) (call : MemberCall) : List ACE := (call.edit acl).getD acl

inductive MemberStage where
  | idle
  | called (call : MemberCall)
  /-- The reply of `set_acl` is to come. -/
  | editing (call : MemberCall) (read edited : List ACE)
  | returned (call : MemberCall)

/-- A group's node, with the calls of its clients, named by `W`, and those that have returned. -/
structure GroupNode (W : Type) where
  acl : List ACE
  stages : W → MemberStage
  returned : List (W × MemberCall)

inductive GroupEvent (W : Type) where
  | call (w : W) (call : MemberCall)
  | getAcl (w : W)
  | setAcl (w : W)

variable {W : Type} [DecidableEq W]

namespace GroupNode

variable (m : GroupNode W)

def setStage (w : W) (stage : MemberStage) : GroupNode W :=
  { m with stages := Function.update m.stages w stage }

def callReturns (w : W) (call : MemberCall) : GroupNode W :=
  { m.setStage w (.returned call) with returned := m.returned ++ [(w, call)] }

/-- `set_acl` is called without a version, and sets the ACL whatever it has become. -/
def step : GroupEvent W → Option (GroupNode W)
  | .call w call =>
    match m.stages w with
    | .idle => some (m.setStage w (.called call))
    | _ => none
  | .getAcl w =>
    match m.stages w with
    | .called call =>
      match call.edit m.acl with
      | none => some (m.callReturns w call)
      | some edited => some (m.setStage w (.editing call m.acl edited))
    | _ => none
  | .setAcl w =>
    match m.stages w with
    | .editing call _ edited => some ({ m with acl := edited }.callReturns w call)
    | _ => none

structure Initial (acl : List ACE) : Prop where
  acl : m.acl = acl
  idle : ∀ w, m.stages w = .idle
  returned : m.returned = []

end GroupNode

/-- The name of the principal that a call is about. -/
def MemberCall.name : MemberCall → String
  | addMember token => principalName token
  | removeMember name => name

/-- What a call relies on in the ACL that it reads: that an entry of its token has the permission
to read, and that the name that is removed has no second entry. -/
def MemberCall.Fits : MemberCall → List ACE → Prop
  | addMember token, acl => ∀ ace ∈ acl, ace.id = token → ace.Allows .read
  | removeMember name, acl => (acl.filter fun ace => principalName ace.id = name).length ≤ 1

instance (call : MemberCall) (acl : List ACE) : Decidable (call.Fits acl) :=
  match call with
  | .addMember token => inferInstanceAs (Decidable (∀ ace ∈ acl, ace.id = token → _))
  | .removeMember _ => inferInstanceAs (Decidable (_ ≤ 1))

/-- A call that sets the ACL finds it as it has read it. -/
def GroupNode.Undisturbed (m : GroupNode W) : GroupEvent W → Prop
  | .call _ _ => True
  | .getAcl w => ∀ call, m.stages w = .called call → call.Fits m.acl
  | .setAcl w => ∀ call read edited, m.stages w = .editing call read edited → m.acl = read

/-- A member that can read the group's credentials. -/
def Member (acl : List ACE) (token : String) : Prop :=
  ∃ ace ∈ acl, ace.id = token ∧ ace.Allows .read

instance (acl : List ACE) (token : String) : Decidable (Member acl token) :=
  inferInstanceAs (Decidable (∃ ace ∈ acl, ace.id = token ∧ _))

/-- No entry has the name. -/
def NotNamed (acl : List ACE) (name : String) : Prop := ∀ ace ∈ acl, principalName ace.id ≠ name

section edits

variable (acl edited : List ACE) (call : MemberCall)

theorem run_of_edit (h : call.edit acl = some edited) : call.run acl = edited := by
  rw [MemberCall.run, h, Option.getD_some]

theorem run_of_none (h : call.edit acl = none) : call.run acl = acl := by
  rw [MemberCall.run, h, Option.getD_none]

theorem addMember_run (token : String) : MemberCall.run acl (.addMember token) =
    if ∃ ace ∈ acl, ace.id = token then acl else acl ++ [makeAce token .read []] := by
  rw [MemberCall.run, MemberCall.edit]
  split
  · rfl
  · rfl

/-- A removal takes the first entry of the name, if there is one. -/
theorem removeMember_run (name : String) :
    (NotNamed acl name ∧ MemberCall.run acl (.removeMember name) = acl) ∨
      ∃ ace ∈ acl, principalName ace.id = name ∧
        MemberCall.run acl (.removeMember name) = acl.erase ace := by
  rw [MemberCall.run, MemberCall.edit]
  cases hfind : acl.find? (fun ace => principalName ace.id = name) with
  | none =>
    refine .inl ⟨fun ace hace => ?_, rfl⟩
    have hnot := List.find?_eq_none.mp hfind ace hace
    simpa using hnot
  | some ace =>
    have hname := List.find?_some hfind
    exact .inr ⟨ace, List.mem_of_find?_eq_some hfind, by simpa using hname, rfl⟩

theorem makeAce_read (token : String) : (makeAce token .read []).Allows .read := by
  show (1 &&& 1 : Nat) ≠ 0
  decide

theorem run_member (token : String) (h : (MemberCall.addMember token).Fits acl) :
    Member (MemberCall.run acl (.addMember token)) token := by
  rw [addMember_run]
  split
  · rename_i hfound
    obtain ⟨ace, hace, hid⟩ := hfound
    exact ⟨ace, hace, hid, h ace hace hid⟩
  · exact ⟨makeAce token .read [], by simp, rfl, makeAce_read token⟩

theorem run_notNamed (name : String) (h : (MemberCall.removeMember name).Fits acl) :
    NotNamed (MemberCall.run acl (.removeMember name)) name := by
  obtain ⟨hnot, hrun⟩ | ⟨ace, hace, hname, hrun⟩ := removeMember_run acl name
  · rw [hrun]
    exact hnot
  · rw [hrun]
    intro other hother hsame
    have hperm := (List.perm_cons_erase hace).filter (fun ace => principalName ace.id = name)
    have hlength := hperm.length_eq
    rw [List.filter_cons_of_pos (by simpa using hname), List.length_cons] at hlength
    have hmem : other ∈ (acl.erase ace).filter fun ace => principalName ace.id = name :=
      List.mem_filter.mpr ⟨hother, by simpa using hsame⟩
    have hpos := List.length_pos_of_mem hmem
    have hfits : (acl.filter fun ace => principalName ace.id = name).length ≤ 1 := h
    omega

/-- A member stays one until its name is removed. -/
theorem run_keeps_member (token : String) (h : Member acl token)
    (hcall : call ≠ .removeMember (principalName token)) : Member (call.run acl) token := by
  obtain ⟨ace, hace, hid, hread⟩ := h
  cases call with
  | addMember other =>
    refine ⟨ace, ?_, hid, hread⟩
    rw [addMember_run]
    split
    · exact hace
    · exact List.mem_append_left _ hace
  | removeMember name =>
    obtain ⟨-, hrun⟩ | ⟨first, -, hname, hrun⟩ := removeMember_run acl name
    · rw [hrun]
      exact ⟨ace, hace, hid, hread⟩
    · have hne : ace ≠ first := by
        intro heq
        rw [← heq, hid] at hname
        rw [hname] at hcall
        exact hcall rfl
      rw [hrun]
      exact ⟨ace, (List.mem_erase_of_ne hne).mpr hace, hid, hread⟩

/-- A name without an entry has none until a member of the name is added. -/
theorem run_keeps_notNamed (name : String) (h : NotNamed acl name)
    (hcall : ∀ token, call = .addMember token → principalName token ≠ name) :
    NotNamed (call.run acl) name := by
  intro ace hace
  cases call with
  | addMember token =>
    rw [addMember_run] at hace
    split at hace
    · exact h ace hace
    · cases List.mem_append.mp hace with
      | inl hold => exact h ace hold
      | inr hnew =>
        rw [List.mem_singleton.mp hnew]
        exact hcall token rfl
  | removeMember other =>
    obtain ⟨-, hrun⟩ | ⟨first, -, -, hrun⟩ := removeMember_run acl other
    · rw [hrun] at hace
      exact h ace hace
    · rw [hrun] at hace
      exact h ace (List.mem_of_mem_erase hace)

/-- The entries of another name are left as they are. -/
theorem run_others (name : String) (h : call.name ≠ name) :
    (call.run acl).filter (fun ace => principalName ace.id = name) =
      acl.filter fun ace => principalName ace.id = name := by
  cases call with
  | addMember token =>
    rw [addMember_run]
    split
    · rfl
    · have hnew : principalName (makeAce token .read []).id ≠ name := h
      rw [List.filter_append, List.filter_cons_of_neg (by simpa using hnew), List.filter_nil,
        List.append_nil]
  | removeMember other =>
    obtain ⟨-, hrun⟩ | ⟨first, -, hname, hrun⟩ := removeMember_run acl other
    · rw [hrun]
    · have hout : first ∉ acl.filter fun ace => principalName ace.id = name := by
        intro hin
        have hsame : principalName first.id = name := by simpa using (List.mem_filter.mp hin).2
        exact h (hname.symm.trans hsame)
      rw [hrun, ← List.erase_filter, List.erase_of_not_mem hout]

end edits

namespace GroupNode

/-- The calls under way, and the list of those that have returned. -/
structure CallsSound (m : GroupNode W) : Prop where
  editing : ∀ w call read edited, m.stages w = .editing call read edited →
    call.edit read = some edited ∧ call.Fits read
  listed : ∀ w call, (w, call) ∈ m.returned ↔ m.stages w = .returned call
  once : (m.returned.map Prod.fst).Nodup

/-- One after the other, in the order in which they have returned, the calls would have made the
same ACL; members are there until they are removed, names that are removed are not, and the entries
of the other names are as they were. -/
structure MembershipKept (initial : List ACE) (m : GroupNode W) : Prop where
  sequential : m.acl = (m.returned.map Prod.snd).foldl MemberCall.run initial
  once : (m.returned.map Prod.fst).Nodup
  returned : ∀ w call, (w, call) ∈ m.returned ↔ m.stages w = .returned call
  added : ∀ before w token after, m.returned = before ++ (w, .addMember token) :: after →
    (∀ v, (v, .removeMember (principalName token)) ∉ after) → Member m.acl token
  removed : ∀ before w name after, m.returned = before ++ (w, .removeMember name) :: after →
    (∀ v token, (v, .addMember token) ∈ after → principalName token ≠ name) → NotNamed m.acl name
  others : ∀ name, (∀ w call, (w, call) ∈ m.returned → call.name ≠ name) →
    m.acl.filter (fun ace => principalName ace.id = name) =
      initial.filter fun ace => principalName ace.id = name

section runs

variable (initial : List ACE) (m m' : GroupNode W) (w : W) (call : MemberCall)

theorem stages_self (stage : MemberStage) : (m.setStage w stage).stages w = stage := by
  simp [setStage]

theorem stages_of_ne (stage : MemberStage) (v : W) (hv : v ≠ w) :
    (m.setStage w stage).stages v = m.stages v := by
  simp [setStage, hv]

/-- A call that has not returned goes on to a stage in which it has not. -/
theorem setStage_sound (stage : MemberStage) (h : CallsSound m)
    (hbefore : ∀ call, m.stages w ≠ .returned call) (hafter : ∀ call, stage ≠ .returned call)
    (hediting : ∀ call read edited, stage = .editing call read edited →
      call.edit read = some edited ∧ call.Fits read) : CallsSound (m.setStage w stage) := by
  refine ⟨fun v call read edited hv => ?_, fun v call => ?_, h.once⟩
  · by_cases hvw : v = w
    · rw [hvw, stages_self] at hv
      exact hediting call read edited hv
    · rw [stages_of_ne m w stage v hvw] at hv
      exact h.editing v call read edited hv
  · show (v, call) ∈ m.returned ↔ _
    rw [h.listed]
    by_cases hvw : v = w
    · rw [hvw, stages_self]
      exact ⟨fun hold => absurd hold (hbefore call), fun hnew => absurd hnew (hafter call)⟩
    · rw [stages_of_ne m w stage v hvw]

theorem callReturns_sound (acl : List ACE) (h : CallsSound m)
    (hbefore : ∀ call, m.stages w ≠ .returned call) :
    CallsSound ({ m with acl := acl }.callReturns w call) := by
  have hself : ({ m with acl := acl }.callReturns w call).stages w = .returned call :=
    stages_self _ w _
  have hother : ∀ v, v ≠ w →
      ({ m with acl := acl }.callReturns w call).stages v = m.stages v :=
    stages_of_ne { m with acl := acl } w (.returned call)
  refine ⟨fun v other read edited hv => ?_, fun v other => ?_, ?_⟩
  · by_cases hvw : v = w
    · rw [hvw, hself] at hv
      cases hv
    · rw [hother v hvw] at hv
      exact h.editing v other read edited hv
  · show (v, other) ∈ m.returned ++ [(w, call)] ↔ _
    rw [List.mem_append, List.mem_singleton, h.listed, Prod.mk.injEq]
    by_cases hvw : v = w
    · subst hvw
      rw [hself, MemberStage.returned.injEq]
      have hnot := hbefore other
      tauto
    · rw [hother v hvw]
      tauto
  · show ((m.returned ++ [(w, call)]).map Prod.fst).Nodup
    rw [List.map_append, List.nodup_append]
    refine ⟨h.once, List.nodup_singleton w, fun v hv v' hw heq => ?_⟩
    obtain ⟨⟨u, other⟩, hmem, hu⟩ := List.mem_map.mp hv
    have huw : u = w := (hu.trans heq).trans (List.mem_singleton.mp hw)
    rw [huw] at hmem
    exact hbefore other ((h.listed w other).mp hmem)

/-- The list of calls as it was, with the ACL, or with one call more that the ACL shows. -/
theorem step_effect (e : GroupEvent W) (h : CallsSound m) (hfine : m.Undisturbed e)
    (hs : m.step e = some m') : CallsSound m' ∧ (m'.acl = m.acl ∧ m'.returned = m.returned ∨
      ∃ w call, m'.returned = m.returned ++ [(w, call)] ∧ m'.acl = call.run m.acl ∧
        call.Fits m.acl) := by
  cases e with
  | call w call =>
    dsimp only [step] at hs
    cases hstage : m.stages w with
    | idle =>
      rw [hstage] at hs
      obtain rfl := Option.some.inj hs
      refine ⟨setStage_sound m w _ h ?_ nofun nofun, .inl ⟨rfl, rfl⟩⟩
      rw [hstage]
      exact nofun
    | _ =>
      rw [hstage] at hs
      cases hs
  | getAcl w =>
    dsimp only [step] at hs
    cases hstage : m.stages w with
    | called call =>
      have hfits := hfine call hstage
      have hbefore : ∀ call, m.stages w ≠ .returned call := by
        rw [hstage]
        exact nofun
      simp only [hstage] at hs
      cases hedit : call.edit m.acl with
      | none =>
        rw [hedit] at hs
        obtain rfl := Option.some.inj hs
        have hrun := run_of_none m.acl call hedit
        exact ⟨callReturns_sound m w call m.acl h hbefore,
          .inr ⟨w, call, rfl, hrun.symm, hfits⟩⟩
      | some edited =>
        rw [hedit] at hs
        obtain rfl := Option.some.inj hs
        refine ⟨setStage_sound m w _ h hbefore nofun ?_, .inl ⟨rfl, rfl⟩⟩
        intro other read new heq
        cases heq
        exact ⟨hedit, hfits⟩
    | _ =>
      rw [hstage] at hs
      cases hs
  | setAcl w =>
    dsimp only [step] at hs
    cases hstage : m.stages w with
    | editing call read edited =>
      rw [hstage] at hs
      obtain rfl := Option.some.inj hs
      obtain ⟨hedit, hfits⟩ := h.editing w call read edited hstage
      rw [← hfine call read edited hstage] at hedit hfits
      refine ⟨callReturns_sound m w call edited h ?_, .inr ⟨w, call, rfl, ?_, hfits⟩⟩
      · rw [hstage]
        exact nofun
      · exact (run_of_edit m.acl edited call hedit).symm
    | _ =>
      rw [hstage] at hs
      cases hs

omit [DecidableEq W] in
/-- One call more. -/
theorem membershipKept_snoc (h : MembershipKept initial m) (hsound : CallsSound m')
    (hreturned : m'.returned = m.returned ++ [(w, call)]) (hacl : m'.acl = call.run m.acl)
    (hfits : call.Fits m.acl) : MembershipKept initial m' := by
  refine ⟨?_, hsound.once, hsound.listed, ?_, ?_, ?_⟩
  · rw [hacl, hreturned, List.map_append, List.foldl_append, ← h.sequential]
    rfl
  · intro before v token after heq hafter
    rw [hreturned] at heq
    rw [hacl]
    obtain ⟨-, hlast, -⟩ | ⟨after', rfl, hcut⟩ := snoc_cut m.returned before after _ _ heq
    · obtain rfl : MemberCall.addMember token = call := congrArg Prod.snd hlast
      exact run_member m.acl token hfits
    · have hmember := h.added before v token after' hcut
        fun u hu => hafter u (List.mem_append_left _ hu)
      apply run_keeps_member m.acl call token hmember
      intro hcall
      exact hafter w (by simp [hcall])
  · intro before v name after heq hafter
    rw [hreturned] at heq
    rw [hacl]
    obtain ⟨-, hlast, -⟩ | ⟨after', rfl, hcut⟩ := snoc_cut m.returned before after _ _ heq
    · obtain rfl : MemberCall.removeMember name = call := congrArg Prod.snd hlast
      exact run_notNamed m.acl name hfits
    · have hnot := h.removed before v name after' hcut
        fun u token hu => hafter u token (List.mem_append_left _ hu)
      apply run_keeps_notNamed m.acl call name hnot
      intro token hcall
      exact hafter w token (by simp [hcall])
  · intro name hother
    rw [hreturned] at hother
    rw [hacl, run_others m.acl call name (hother w call (by simp))]
    exact h.others name fun v other hv => hother v other (List.mem_append_left _ hv)

omit [DecidableEq W] in
theorem initial_kept (h : m.Initial initial) : CallsSound m ∧ MembershipKept initial m := by
  have hlisted : ∀ w call, (w, call) ∈ m.returned ↔ m.stages w = .returned call := by
    intro w call
    rw [h.returned, h.idle w]
    exact ⟨nofun, nofun⟩
  have hcut : ∀ before entry after, m.returned ≠ before ++ entry :: after := by
    intro before entry after heq
    rw [h.returned] at heq
    simp at heq
  have honce : (m.returned.map Prod.fst).Nodup := by
    rw [h.returned]
    exact List.nodup_nil
  refine ⟨⟨fun w call read edited hw => ?_, hlisted, honce⟩, ?_, honce, hlisted, ?_, ?_, ?_⟩
  · rw [h.idle w] at hw
    cases hw
  · rw [h.acl, h.returned]
    rfl
  · exact fun before w token after heq => absurd heq (hcut before _ after)
  · exact fun before w name after heq => absurd heq (hcut before _ after)
  · intro name _
    rw [h.acl]

theorem membership_kept (h : Reachable (Initial · initial) step Undisturbed m) :
    MembershipKept initial m := by
  have hboth := reachable_invariant (fun m => CallsSound m ∧ MembershipKept initial m)
    (fun m hm => initial_kept initial m hm) (fun m m' e hm hfine hs => ?_) m h
  · exact hboth.2
  · obtain ⟨hsound, ⟨hacl, hreturned⟩ | ⟨w, call, hreturned, hacl, hfits⟩⟩ :=
      step_effect m m' e hm.1 hfine hs
    · refine ⟨hsound, ?_, hsound.once, hsound.listed, ?_, ?_, ?_⟩
      · rw [hacl, hreturned]
        exact hm.2.sequential
      · rw [hacl, hreturned]
        exact hm.2.added
      · rw [hacl, hreturned]
        exact hm.2.removed
      · rw [hacl, hreturned]
        exact hm.2.others
    · exact ⟨hsound, membershipKept_snoc initial m m' w call hm.2 hsound hreturned hacl hfits⟩

end runs

section clients

/-- A group with an entry of its owner, and no calls. -/
def newGroup : GroupNode Nat where
  acl := [makeAce "admin:key" .all []]
  stages := fun _ => .idle
  returned := []

theorem newGroup_initial : newGroup.Initial newGroup.acl := ⟨rfl, fun _ => rfl, rfl⟩

/-- A member is added, another one too, and the first is removed. -/
theorem membership_kept_removed : ∃ m : GroupNode Nat, MembershipKept newGroup.acl m ∧
    Member m.acl "genie:key" ∧ NotNamed m.acl "aladdin" := by
  have hcalled : Reachable (Initial · newGroup.acl) step Undisturbed _ :=
    reachable_events [.call 0 (.addMember "aladdin:key"), .call 1 (.addMember "genie:key"),
      .call 2 (.removeMember "aladdin")] (by simp [Undisturbed]) newGroup _
      (.init newGroup newGroup_initial) rfl
  have hread₀ : Reachable (Initial · newGroup.acl) step Undisturbed _ :=
    .step _ _ (.getAcl 0) hcalled (fun _ hcall => by cases hcall; decide) rfl
  have hset₀ : Reachable (Initial · newGroup.acl) step Undisturbed _ :=
    .step _ _ (.setAcl 0) hread₀ (fun _ _ _ hediting => by cases hediting; rfl) rfl
  have hread₁ : Reachable (Initial · newGroup.acl) step Undisturbed _ :=
    .step _ _ (.getAcl 1) hset₀ (fun _ hcall => by cases hcall; decide) rfl
  have hset₁ : Reachable (Initial · newGroup.acl) step Undisturbed _ :=
    .step _ _ (.setAcl 1) hread₁ (fun _ _ _ hediting => by cases hediting; rfl) rfl
  have hread₂ : Reachable (Initial · newGroup.acl) step Undisturbed _ :=
    .step _ _ (.getAcl 2) hset₁ (fun _ hcall => by cases hcall; decide) rfl
  have hset₂ : Reachable (Initial · newGroup.acl) step Undisturbed _ :=
    .step _ _ (.setAcl 2) hread₂ (fun _ _ _ hediting => by cases hediting; rfl) rfl
  have hkept := membership_kept newGroup.acl _ hset₂
  refine ⟨_, hkept, ?_, ?_⟩
  · exact hkept.added [(0, .addMember "aladdin:key")] 1 "genie:key" [(2, .removeMember "aladdin")]
      rfl (by simp; decide)
  · exact hkept.removed [(0, .addMember "aladdin:key"), (1, .addMember "genie:key")] 2 "aladdin" []
      rfl (by simp)

/-- Two members are added at once. Both calls have returned, and one of the members is not there. -/
theorem membership_lost : ∃ m : GroupNode Nat,
    Reachable (Initial · newGroup.acl) step (fun _ _ => True) m ∧
      m.returned = [(0, .addMember "aladdin:key"), (1, .addMember "genie:key")] ∧
      ¬ Member m.acl "aladdin:key" ∧
      ∀ calls : List MemberCall, calls.Perm (m.returned.map Prod.snd) →
        m.acl ≠ calls.foldl MemberCall.run newGroup.acl := by
  have hrun : Reachable (Initial · newGroup.acl) step (fun _ _ => True) _ :=
    reachable_stepAll (fun _ _ => trivial)
      [.call 0 (.addMember "aladdin:key"), .call 1 (.addMember "genie:key"), .getAcl 0, .getAcl 1,
        .setAcl 0, .setAcl 1] newGroup _ (.init newGroup newGroup_initial) rfl
  refine ⟨_, hrun, rfl, by decide, fun calls hcalls => ?_⟩
  have hmem := List.mem_permutations'.mpr hcalls
  clear hcalls
  revert calls
  decide

end clients

end GroupNode

end Juju.State
