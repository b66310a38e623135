import Juju.Unit.KnownRelationsRuns
import Mathlib.Data.Prod.Lex

namespace Juju.Unit.KnownRelations
open Juju.Base

variable {R : Type} [DecidableEq R]

section ends

variable (isPrincipal : Bool) (isContainer : R → Bool)

/-- What the process has still to read of the service. -/
def UnitRelations.toRead (s : UnitRelations R) : Nat :=
  match s.process with
  | none => 4
  | some p => (if p.seen = some s.current then 0 else 2) + if p.observed.isSome then 1 else 0

def AgentProcess.toVisit (p : AgentProcess R) : Nat :=
  p.toLoad.length + p.toStop.length + p.removed.length + p.added.length

def AgentProcess.toPerform (p : AgentProcess R) : Nat :=
  if p.working.isSome then p.ops.length + 1 else 0

def AgentProcess.underWay (p : AgentProcess R) : Nat := p.busy.length + p.pending.length

/-- What the agent has left to do: what it has to read comes before the relations that it has to
come to, and these before what it has begun. -/
def UnitRelations.workLeft (s : UnitRelations R) : Nat ×ₗ Nat ×ₗ Nat ×ₗ Nat :=
  toLex (s.toRead, toLex ((s.process.elim 0 AgentProcess.toVisit),
    toLex ((s.process.elim 0 AgentProcess.toPerform), s.process.elim 0 AgentProcess.underWay)))

/-- An event of the agent's own leads from one state to the other. -/
def UnitRelations.Goes (s' s : UnitRelations R) : Prop :=
  ∃ e : Event R, e.own = true ∧ s.step isPrincipal isContainer e = some s'

variable {isPrincipal isContainer} (s s' : UnitRelations R) (p p' : AgentProcess R)

theorem workLeft_read (h : s'.toRead < s.toRead) : s'.workLeft < s.workLeft :=
  Prod.Lex.toLex_lt_toLex.mpr (Or.inl h)

section process

variable (hp : s.process = some p) (hp' : s'.process = some p')
  (hcurrent : s'.current = s.current) (hseen : p'.seen = p.seen) (hobserved : p'.observed = p.observed)
include hp hp' hcurrent hseen hobserved

theorem toRead_same : s'.toRead = s.toRead := by
  simp only [UnitRelations.toRead, hp, hp', hcurrent, hseen, hobserved]

theorem workLeft_visit (h : p'.toVisit < p.toVisit) : s'.workLeft < s.workLeft := by
  have hread := toRead_same s s' p p' hp hp' hcurrent hseen hobserved
  simp only [UnitRelations.workLeft, hread, hp, hp', Option.elim, Prod.Lex.toLex_lt_toLex]
  exact Or.inr ⟨trivial, Or.inl h⟩

theorem workLeft_perform (hvisit : p'.toVisit = p.toVisit) (h : p'.toPerform < p.toPerform) :
    s'.workLeft < s.workLeft := by
  have hread := toRead_same s s' p p' hp hp' hcurrent hseen hobserved
  simp only [UnitRelations.workLeft, hread, hp, hp', Option.elim, hvisit, Prod.Lex.toLex_lt_toLex]
  exact Or.inr ⟨trivial, Or.inr ⟨trivial, Or.inl h⟩⟩

theorem workLeft_underWay (hvisit : p'.toVisit = p.toVisit) (hperform : p'.toPerform = p.toPerform)
    (h : p'.underWay < p.underWay) : s'.workLeft < s.workLeft := by
  have hread := toRead_same s s' p p' hp hp' hcurrent hseen hobserved
  simp only [UnitRelations.workLeft, hread, hp, hp', Option.elim, hvisit, hperform,
    Prod.Lex.toLex_lt_toLex]
  exact Or.inr ⟨trivial, Or.inr ⟨trivial, Or.inr ⟨trivial, h⟩⟩⟩

end process

theorem workLeft_proceed (hp : s.process = some p)
    (hs : s.proceed isPrincipal isContainer p = some s') : s'.workLeft < s.workLeft := by
  unfold UnitRelations.proceed at hs
  split at hs
  · rename_i r task hw
    split at hs
    · rename_i op ops hops
      obtain rfl := Option.some.inj hs
      refine workLeft_perform s _ p (p.performed r op ops) hp rfl rfl rfl rfl rfl ?_
      simp [AgentProcess.toPerform, AgentProcess.performed, hw, hops]
    · obtain rfl := Option.some.inj hs
      cases task with
      | load =>
        refine workLeft_perform s _ p { p with working := none } hp rfl rfl rfl rfl rfl ?_
        simp [AgentProcess.toPerform, hw]
      | depart =>
        refine workLeft_perform s _ p { p with working := none } hp rfl rfl rfl rfl rfl ?_
        simp [AgentProcess.toPerform, hw]
      | add =>
        refine workLeft_perform s _ p _ hp rfl rfl rfl rfl rfl ?_
        simp [AgentProcess.toPerform, hw]
  · rename_i r toLoad hw hload
    dsimp only at hs
    split at hs
    · cases hs
    · split at hs
      · obtain rfl := Option.some.inj hs
        refine workLeft_visit s _ p _ hp rfl rfl rfl rfl ?_
        simp [AgentProcess.toVisit, AgentProcess.addRelation, hload]
      · obtain rfl := Option.some.inj hs
        refine workLeft_visit s _ p _ hp rfl rfl rfl rfl ?_
        simp [AgentProcess.toVisit, hload]
  · rename_i r toStop hw hload hstop
    obtain rfl := Option.some.inj hs
    refine workLeft_visit s _ p { p with toStop := toStop } hp rfl rfl rfl rfl ?_
    simp [AgentProcess.toVisit, hstop]
  · rename_i r removed hw hload hstop hremoved
    split at hs
    · cases hs
    · obtain rfl := Option.some.inj hs
      refine workLeft_visit s _ p _ hp rfl rfl rfl rfl ?_
      simp [AgentProcess.toVisit, hremoved]
  · rename_i r added hw hload hstop hremoved hadded
    dsimp only at hs
    split at hs
    · cases hs
    · obtain rfl := Option.some.inj hs
      refine workLeft_visit s _ p _ hp rfl rfl rfl rfl ?_
      simp [AgentProcess.toVisit, AgentProcess.addRelation, hadded]
  · rename_i newRelations hw hload hstop hremoved hadded hobserved
    obtain rfl := Option.some.inj hs
    apply workLeft_read
    simp [UnitRelations.toRead, UnitRelations.setProcess, AgentProcess.compare, hp, hobserved]
  · cases hs

/-- A step that can raise is one that is under way, or that comes to a relation. -/
theorem raises_busy (found : Bool) (h : s.raises isContainer p found = true) :
    0 < p.toVisit ∨ 0 < p.toPerform := by
  unfold UnitRelations.raises at h
  split at h
  · rename_i hw _
    exact Or.inr (by simp [AgentProcess.toPerform, hw])
  · cases h
  · left
    obtain ⟨r, hr, -⟩ := (Option.any_eq_true ..).mp h
    unfold AgentProcess.nextAdded at hr
    split at hr
    · rename_i hload
      simp only [AgentProcess.toVisit, hload, List.length_cons]
      omega
    · rename_i hadded
      simp only [AgentProcess.toVisit, hadded, List.length_cons]
      omega
    · cases hr

theorem workLeft_raised (found : Bool) (hp : s.process = some p)
    (h : s.raises isContainer p found = true) : (s.setProcess p.raised).workLeft < s.workLeft := by
  cases hobserved : p.observed with
  | some newRelations =>
    apply workLeft_read
    simp only [UnitRelations.toRead, UnitRelations.setProcess, AgentProcess.raised, hp, hobserved]
    exact Nat.lt_succ_self _
  | none =>
    rcases Nat.eq_zero_or_pos p.toVisit with hvisit | hvisit
    · have hperform := (raises_busy s p found h).resolve_left (by rw [hvisit]; exact Nat.lt_irrefl 0)
      exact workLeft_perform s _ p p.raised hp rfl rfl rfl hobserved.symm hvisit.symm hperform
    · exact workLeft_visit s _ p p.raised hp rfl rfl rfl hobserved.symm hvisit

/-- Every event of the agent's own takes from what it has left to do. -/
theorem workLeft_step (e : Event R) (hown : e.own = true)
    (hs : s.step isPrincipal isContainer e = some s') : s'.workLeft < s.workLeft := by
  cases e with
  | addRelation r => cases hown
  | removeRelation r => cases hown
  | crash => cases hown
  | fire r t => cases hown
  | start =>
    simp only [UnitRelations.step] at hs
    split at hs
    · rename_i hnone
      obtain rfl := Option.some.inj hs
      apply workLeft_read
      simp [UnitRelations.toRead, UnitRelations.setProcess, newProcess, hnone]
    · cases hs
  | fired r starting =>
    obtain ⟨p, hp, hnext⟩ := Option.bind_eq_some_iff.mp hs
    unfold UnitRelations.fired at hnext
    split at hnext
    · cases hnext
    · rename_i e hfind
      have hfewer : (p.busy.filter fun e => e.1 ≠ r).length < p.busy.length := by
        apply List.length_filter_lt_length_iff_exists.mpr
        exact ⟨e, List.mem_of_find?_eq_some hfind, by simpa using List.find?_some hfind⟩
      have hless (watched : List R) (watchless : Bool) : AgentProcess.underWay { p with
          busy := p.busy.filter fun e => e.1 ≠ r, watched := watched, watchless := watchless } <
          p.underWay := by
        simpa [AgentProcess.underWay] using hfewer
      dsimp only at hnext
      split at hnext
      · obtain rfl := Option.some.inj hnext
        exact workLeft_underWay s _ p _ hp rfl rfl rfl rfl rfl rfl (hless p.watched _)
      · obtain rfl := Option.some.inj hnext
        exact workLeft_underWay s _ p _ hp rfl rfl rfl rfl rfl rfl (hless _ p.watchless)
  | observe =>
    obtain ⟨p, hp, hnext⟩ := Option.bind_eq_some_iff.mp hs
    split at hnext
    · rename_i hcan
      obtain ⟨⟨-, -, -, -, -, hobserved⟩, -, hseen⟩ := hcan
      obtain rfl := Option.some.inj hnext
      apply workLeft_read
      simp [UnitRelations.toRead, UnitRelations.setProcess, hp, hobserved, hseen]
    · cases hnext
  | goOn found =>
    obtain ⟨p, hp, hnext⟩ := Option.bind_eq_some_iff.mp hs
    unfold UnitRelations.goOn at hnext
    split at hnext
    · rename_i hraises
      obtain rfl := Option.some.inj hnext
      exact workLeft_raised s p found hp hraises
    · exact workLeft_proceed s s' p hp hnext
  | addSubordinate r =>
    obtain ⟨p, hp, hnext⟩ := Option.bind_eq_some_iff.mp hs
    unfold UnitRelations.addSubordinate at hnext
    split at hnext
    · rename_i hin
      have hfewer : (p.pending.filter (· ≠ r)).length < p.pending.length := by
        apply List.length_filter_lt_length_iff_exists.mpr
        exact ⟨r, hin, by simp⟩
      have hless : AgentProcess.underWay { p with pending := p.pending.filter (· ≠ r) } <
          p.underWay := by
        simpa [AgentProcess.underWay] using hfewer
      dsimp only at hnext
      split at hnext
      · obtain rfl := Option.some.inj hnext
        exact workLeft_underWay s _ p _ hp rfl rfl rfl rfl rfl rfl hless
      · obtain rfl := Option.some.inj hnext
        exact workLeft_underWay s _ p _ hp rfl rfl rfl rfl rfl rfl hless
    · cases hnext

variable (isPrincipal isContainer)

theorem goes_wellFounded : WellFounded (UnitRelations.Goes (R := R) isPrincipal isContainer) := by
  apply Subrelation.wf _ (InvImage.wf UnitRelations.workLeft wellFounded_lt)
  rintro s' s ⟨e, hown, hs⟩
  exact workLeft_step s s' e hown hs

end ends

section quiescent

variable {isPrincipal : Bool} {isContainer : R → Bool} (s : UnitRelations R)

/-- The process that is left when nothing is under way: the relations that the service has are the
last that it has read, if it has the watch that reads them. -/
structure Idle (p : AgentProcess R) : Prop where
  busy : p.busy = []
  pending : p.pending = []
  waits : UnitRelations.waits p
  seen : p.watchless = true ∨ p.seen = some s.current

instance (p : AgentProcess R) : Decidable (Idle s p) :=
  decidable_of_iff
    (p.busy = [] ∧ p.pending = [] ∧ UnitRelations.waits p ∧
      (p.watchless = true ∨ p.seen = some s.current))
    ⟨fun h => ⟨h.1, h.2.1, h.2.2.1, h.2.2.2⟩, fun h => ⟨h.busy, h.pending, h.waits, h.seen⟩⟩

/-- Nothing stands in the way of the callback but a workflow that is locked. -/
theorem waits_of_proceed_none (p : AgentProcess R) (hbusy : p.busy = [])
    (hs : s.proceed isPrincipal isContainer p = none) : UnitRelations.waits p := by
  have hfree (q : AgentProcess R) (r : R) (hq : q.busy = p.busy) : ¬ q.isBusy r = true := by
    simp [AgentProcess.isBusy, hq, hbusy]
  unfold UnitRelations.proceed at hs
  split at hs
  · split at hs <;> cases hs
  · rename_i r toLoad hw hload
    dsimp only at hs
    split at hs
    · rename_i hlocked
      exact absurd hlocked (hfree _ r rfl)
    · split at hs <;> cases hs
  · cases hs
  · rename_i r removed hw hload hstop hremoved
    split at hs
    · rename_i hlocked
      exact absurd hlocked (hfree p r rfl)
    · cases hs
  · rename_i r added hw hload hstop hremoved hadded
    dsimp only at hs
    split at hs
    · rename_i hlocked
      exact absurd hlocked (hfree _ r rfl)
    · cases hs
  · cases hs
  · rename_i hw hload hstop hremoved hadded hobserved
    exact ⟨by rw [hw]; rfl, hload, hstop, hremoved, hadded, hobserved⟩

theorem idle_of_quiescent (h : s.Quiescent isPrincipal isContainer) :
    ∃ p ∈ s.process, Idle s p := by
  cases hp : s.process with
  | none =>
    have hstart := h .start rfl
    simp [UnitRelations.step, hp] at hstart
  | some p =>
    have hbusy : p.busy = [] := by
      apply List.eq_nil_iff_forall_not_mem.mpr
      intro e he
      have hfired := h (.fired e.1 false) rfl
      simp only [UnitRelations.step, hp, Option.bind_some, UnitRelations.fired] at hfired
      split at hfired
      · rename_i hnone
        simpa using List.find?_eq_none.mp hnone e he
      · split at hfired <;> cases hfired
    have hgoOn := h (.goOn true) rfl
    simp only [UnitRelations.step, hp, Option.bind_some, UnitRelations.goOn] at hgoOn
    have hwaits : UnitRelations.waits p := by
      split at hgoOn
      · cases hgoOn
      · exact waits_of_proceed_none s p hbusy hgoOn
    have hseen : p.watchless = true ∨ p.seen = some s.current := by
      by_contra hne
      rw [not_or, Bool.not_eq_true] at hne
      have hobserve := h .observe rfl
      simp [UnitRelations.step, hp, hwaits, hne] at hobserve
    have hpending : p.pending = [] := by
      apply List.eq_nil_iff_forall_not_mem.mpr
      intro r hr
      have hadd := h (.addSubordinate r) rfl
      simp only [UnitRelations.step, hp, Option.bind_some, UnitRelations.addSubordinate,
        if_pos hr] at hadd
      split at hadd <;> cases hadd
    exact ⟨p, rfl, hbusy, hpending, hwaits, hseen⟩

theorem quiescent_of_idle (p : AgentProcess R) (hp : s.process = some p) (hidle : Idle s p) :
    s.Quiescent isPrincipal isContainer := by
  intro e hown
  cases e with
  | addRelation r => cases hown
  | removeRelation r => cases hown
  | crash => cases hown
  | fire r t => cases hown
  | start => simp [UnitRelations.step, hp]
  | fired r starting => simp [UnitRelations.step, hp, UnitRelations.fired, hidle.busy]
  | observe =>
    rcases hidle.seen with hnone | hseen
    · simp [UnitRelations.step, hp, hnone]
    · simp [UnitRelations.step, hp, hseen]
  | goOn found =>
    obtain ⟨hw, hload, hstop, hremoved, hadded, hobserved⟩ := hidle.waits
    have hnone : p.working = none := Option.isNone_iff_eq_none.mp hw
    simp [UnitRelations.step, hp, UnitRelations.goOn, UnitRelations.raises, UnitRelations.proceed,
      AgentProcess.nextAdded, hnone, hload, hstop, hremoved, hadded, hobserved]
  | addSubordinate r => simp [UnitRelations.step, hp, UnitRelations.addSubordinate, hidle.pending]

theorem quiescent_iff :
    s.Quiescent isPrincipal isContainer ↔ ∃ p ∈ s.process, Idle s p := by
  refine ⟨idle_of_quiescent s, ?_⟩
  rintro ⟨p, hp, hidle⟩
  exact quiescent_of_idle s p hp hidle

instance : Decidable (s.Quiescent isPrincipal isContainer) :=
  decidable_of_iff _ (quiescent_iff s).symm

variable (h : Sound isPrincipal isContainer s) (hwatching : Watching s) (p : AgentProcess R)
  (hp : s.process = some p) (hidle : Idle s p)
include h hwatching hp hidle

omit [DecidableEq R] in
theorem idle_relations (r : R) : r ∈ p.relations ↔ r ∈ s.current := by
  obtain ⟨-, -, -, hremoved, hadded, hobserved⟩ := hidle.waits
  have hseen := hidle.seen.resolve_left (by rw [hwatching p hp]; exact Bool.false_ne_true)
  have hview := (h.process p hp).lists.view s.current hseen hobserved r
  rw [hremoved, hadded] at hview
  simpa using hview.symm

omit [DecidableEq R] in
/-- A relation that has been started and is not departed is one of the service's. -/
theorem idle_current (r : R) (hstarted : s.Started r)
    (hlive : (s.sides r).state ≠ some .departed) : r ∈ s.current := by
  obtain ⟨hw, hload, -, -, hadded, hobserved⟩ := hidle.waits
  rcases (h.process p hp).lists.covered r hstarted hlive with (hin | hin | ⟨l, hl, -⟩) | hin |
    hin | hin
  · exact (idle_relations s h hwatching p hp hidle r).mp hin
  · rw [hadded] at hin
    cases hin
  · rw [hobserved] at hl
    cases hl
  · rw [hload] at hin
    cases hin
  · rw [hin] at hw
    cases hw
  · exact hin

omit [DecidableEq R] in
/-- A relation that is gone has been departed. -/
theorem idle_departed (r : R) (hgone : r ∈ s.gone) (hstarted : s.Started r) :
    (s.sides r).state = some .departed ∧ r ∈ s.broken := by
  have hdeparted : (s.sides r).state = some .departed := by
    by_contra hlive
    exact h.filed.apart r (idle_current s h hwatching p hp hidle r hstarted hlive) hgone
  exact ⟨hdeparted, h.filed.broken r hdeparted⟩

omit [DecidableEq R] in
theorem idle_subordinate (hprincipal : isPrincipal = true) (r : R) (hcurrent : r ∈ s.current)
    (hcontainer : isContainer r = true) : s.subordinates r = 1 := by
  have hrel := (idle_relations s h hwatching p hp hidle r).mpr hcurrent
  have hstored : r ∈ s.stored := by
    refine ((h.process p hp).lists.kept r hrel).resolve_right ?_
    rw [Option.isNone_iff_eq_none.mp hidle.waits.1]
    simp
  rcases h.subordinate hprincipal r hstored hcontainer hcurrent with hone | ⟨q, hq, hin⟩
  · exact hone
  · obtain rfl := Option.some.inj (hp.symm.trans hq)
    rw [hidle.pending] at hin
    cases hin

/-- An agent that has nothing left to do can die. -/
theorem idle_undisturbed : s.Undisturbed isContainer .crash := by
  intro q hq
  obtain rfl := Option.some.inj (hp.symm.trans hq)
  refine ⟨?_, ?_⟩
  · intro r hr
    rw [hidle.pending] at hr
    cases hr
  · exact fun r hstarted hlive => Or.inr (idle_current s h hwatching p hp hidle r hstarted hlive)

end quiescent

/-- Runs whose events leave the agent undisturbed. -/
theorem sound_reachable (isPrincipal : Bool) (isContainer : R → Bool) (s : UnitRelations R)
    (h : Reachable UnitRelations.Initial (UnitRelations.step isPrincipal isContainer)
      (UnitRelations.Undisturbed isContainer) s) : Sound isPrincipal isContainer s ∧ Watching s := by
  apply reachable_invariant (fun s => Sound isPrincipal isContainer s ∧ Watching s) _ _ s h
  · intro s hinit
    refine ⟨sound_initial s hinit, fun p hp => ?_⟩
    rw [hinit.process] at hp
    cases hp
  · rintro s s' e ⟨hsound, hwatching⟩ hfine hs
    exact ⟨sound_step s s' hsound e hfine hs, watching_step s s' e hwatching hfine hs⟩

theorem quiescent_undisturbed {isPrincipal : Bool} {isContainer : R → Bool} (s : UnitRelations R)
    (h : Reachable UnitRelations.Initial (UnitRelations.step isPrincipal isContainer)
      (UnitRelations.Undisturbed isContainer) s) (hquiescent : s.Quiescent isPrincipal isContainer) :
    s.Undisturbed isContainer .crash := by
  obtain ⟨hsound, hwatching⟩ := sound_reachable isPrincipal isContainer s h
  obtain ⟨p, hp, hidle⟩ := idle_of_quiescent s hquiescent
  exact idle_undisturbed s hsound hwatching p hp hidle

/-- Whether an event of the agent's own is seen to leave it undisturbed. -/
def UnitRelations.isCalm (isContainer : R → Bool) (s : UnitRelations R) : Event R → Bool
  | .goOn found => s.process.all fun p => !s.raises isContainer p found
  | .start => true
  | .observe => true
  | .addSubordinate _ => true
  | _ => false

theorem undisturbed_calm (isContainer : R → Bool) (s : UnitRelations R) (e : Event R)
    (h : s.isCalm isContainer e = true) : s.Undisturbed isContainer e := by
  cases e with
  | goOn found =>
    intro p hp
    simpa [UnitRelations.isCalm, hp] using h
  | start => trivial
  | observe => trivial
  | addSubordinate r => trivial
  | _ => cases h

/-- A unit whose service has one relation, a container relation. -/
def oneRelation : UnitRelations Nat :=
  ⟨[0], [], fun _ => newSide, [], [], fun _ => 0, none⟩

/-- What a process does for it, up to the writing of the file. -/
def takesUp : List (Event Nat) := [.start, .observe] ++ List.replicate 11 (.goOn false)

theorem oneRelation_reachable (fine : UnitRelations Nat → Event Nat → Prop)
    (hfine : ∀ s, fine s (.addRelation 0)) :
    Reachable UnitRelations.Initial (UnitRelations.step true fun _ => true) fine oneRelation := by
  apply Reachable.step ⟨[], [], fun _ => newSide, [], [], fun _ => 0, none⟩ _ (.addRelation 0) _
    (hfine _) rfl
  exact .init _ ⟨rfl, rfl, fun _ => rfl, rfl, rfl, fun _ => rfl, rfl⟩

end Juju.Unit.KnownRelations
