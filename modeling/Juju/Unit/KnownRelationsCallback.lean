import Juju.Unit.KnownRelationsKept

namespace Juju.Unit.KnownRelations
open Juju.Base

variable {R : Type} [DecidableEq R]

section callback

variable {isPrincipal : Bool} {isContainer : R → Bool} (s s' : UnitRelations R)
  (p : AgentProcess R) (h : Sound isPrincipal isContainer s) (hp : s.process = some p)
  (hw : p.working = none)
include h hp hw

omit [DecidableEq R] in
/-- A relation of the file that is put among those of the process; its workflow is synchronized
when the relation is one of the service. -/
theorem listed_load (r : R) (toLoad : List R) (hload : p.toLoad = r :: toLoad)
    (working : Option (R × Task)) (ops : List WorkflowOp) :
    Listed s { p with
      relations := r :: p.relations, toLoad := toLoad, working := working, ops := ops } := by
  have hl := (h.process p hp).lists
  obtain ⟨hseen, hobserved, hremoved, hadded⟩ := hl.loading (Or.inl (by rw [hload]; simp))
  have hstored : r ∈ s.stored := (hl.toLoad r (by rw [hload]; simp)).1
  have hidle (x : R) (task : Task) : p.working ≠ some (x, task) := by
    rw [hw]
    simp
  have hin (x : R) (hx : x ∈ p.relations) : x ∈ r :: p.relations := List.mem_cons_of_mem r hx
  refine ⟨?_, ?_, ?_, ?_, ?_, hl.addedOnce, ?_, hl.removedOnce, ?_, ?_, ?_, ?_⟩
  · intro x hx
    rcases hx with hx | hx
    · rcases List.mem_cons.mp hx with rfl | hx
      · exact (h.filed.stored x hstored).2
      · exact hl.known x (Or.inl hx)
    · exact hl.known x (Or.inr hx)
  · intro x hx
    rcases hl.file x hx with hrel | hmore | hdep
    · exact Or.inl (hin x hrel)
    · rw [hload] at hmore
      rcases List.mem_cons.mp hmore with rfl | hmore
      · exact Or.inl (List.mem_cons_self ..)
      · exact Or.inr (Or.inl hmore)
    · exact absurd hdep (hidle x .depart)
  · intro x hx
    rcases List.mem_cons.mp hx with rfl | hx
    · exact Or.inl hstored
    · exact Or.inl ((hl.kept x hx).resolve_right (hidle x .add))
  · intro x hx
    exact hl.toLoad x (by rw [hload]; exact List.mem_cons_of_mem r hx)
  · intro x hx hlive
    rcases hl.covered x hx hlive with htaken | hmore | hdep | hcurrent
    · exact Or.inl (htaken.imp_left (hin x))
    · rw [hload] at hmore
      rcases List.mem_cons.mp hmore with rfl | hmore
      · exact Or.inl (Or.inl (List.mem_cons_self ..))
      · exact Or.inr (Or.inl hmore)
    · exact absurd hdep (hidle x .depart)
    · exact Or.inr (Or.inr (Or.inr hcurrent))
  · intro x hx
    rw [show p.added = [] from hadded] at hx
    cases hx
  · intro x hx
    rw [show p.removed = [] from hremoved] at hx
    cases hx
  · intro newRelations hnew
    rw [show p.seen = none from hseen] at hnew
    cases hnew
  · intro newRelations hnew
    rw [show p.observed = none from hobserved] at hnew
    cases hnew
  · exact fun _ => ⟨hseen, hobserved, hremoved, hadded⟩

omit hw in
/-- The workflows that other tasks have locked stay as they are when work at another begins. -/
theorem busy_begin (r : R) (hfree : p.isBusy r = false) (p' : AgentProcess R)
    (hbusy : p'.busy = p.busy) (hrelations : ∀ x ∈ p.relations, x ≠ r → x ∈ p'.relations)
    (hworking : p'.working = none ∨ ∃ task, p'.working = some (r, task)) :
    ∀ e ∈ p'.busy, BusySound s p' e := by
  intro e he
  rw [hbusy] at he
  have hold := (h.process p hp).busy e he
  have hne : e.1 ≠ r := by
    rintro rfl
    rw [AgentProcess.isBusy, decide_eq_false_iff_not] at hfree
    exact hfree (List.mem_map_of_mem he)
  refine ⟨hrelations e.1 hold.relation hne, ?_, hold.transition, hold.state, hold.undeparted⟩
  rcases hworking with hnone | ⟨task, hsome⟩
  · rw [hnone]
    simp
  · rw [hsome]
    simpa using hne.symm

theorem sound_load (r : R) (toLoad : List R) (hload : p.toLoad = r :: toLoad)
    (hfree : p.isBusy r = false) (hid : r ∈ p.relationsById) :
    Sound isPrincipal isContainer
      (s.setProcess ({ p with toLoad := toLoad }.addRelation r (s.sides r) .load)) := by
  have hproc := h.process p hp
  obtain ⟨hstored, hlive⟩ := hproc.lists.toLoad r (by rw [hload]; simp)
  have hsync := syncOps_synchronize (s.sides r) (hlive hid) (h.filed.fresh r)
  refine sound_setProcess s p _ h hp ⟨?_, ?_, ?_, hproc.pending⟩ rfl
  · exact listed_load s p h hp hw r toLoad hload (some (r, .load)) _
  · intro x task hx
    obtain ⟨rfl, rfl⟩ := Prod.mk.inj (Option.some.inj hx)
    exact ⟨List.mem_cons_self .., hstored, hlive hid, hsync⟩
  · exact busy_begin s p h hp r hfree _ rfl (fun x hx _ => List.mem_cons_of_mem r hx)
      (Or.inr ⟨.load, rfl⟩)

/-- The workflow of a relation that is gone is made without being synchronized. -/
theorem sound_reconstruct (r : R) (toLoad : List R) (hload : p.toLoad = r :: toLoad)
    (hfree : p.isBusy r = false) :
    Sound isPrincipal isContainer
      (s.setProcess { p with toLoad := toLoad, relations := r :: p.relations }) := by
  have hproc := h.process p hp
  refine sound_setProcess s p _ h hp ⟨?_, ?_, ?_, hproc.pending⟩ rfl
  · exact listed_load s p h hp hw r toLoad hload p.working p.ops
  · intro x task hx
    rw [show p.working = none from hw] at hx
    cases hx
  · exact busy_begin s p h hp r hfree _ rfl (fun x hx _ => List.mem_cons_of_mem r hx)
      (Or.inl hw)

/-- `stop` changes neither the state nor the transition that is recorded. -/
theorem sound_stop (r : R) (toStop : List R) :
    Sound isPrincipal isContainer
      ((s.setSide r ((s.sides r).stopLifecycle true)).setProcess { p with toStop := toStop }) := by
  have hproc := h.process p hp
  have hfiled := filed_setSide s r ((s.sides r).stopLifecycle true) s.broken h.filed
    (h.filed.ended r) (fun _ hx => hx) (h.filed.broken r) (h.filed.fresh r)
    (fun hr => (h.filed.stored r hr).1) (fun hd => hd)
  have hlists := listed_setSide s p r ((s.sides r).stopLifecycle true) s.broken hproc.lists
    (fun he => Or.inl he) (fun hd => ?_)
  · obtain ⟨h1, h2, h3, h4, h5, h6, h7, h8, h9, h10, h11, h12⟩ := hlists
    refine sound_setSide s p r _ s.broken { p with toStop := toStop } h hp hfiled
      ⟨⟨h1, h2, h3, h4, h5, h6, h7, h8, h9, h10, h11, h12⟩, ?_, ?_, ?_⟩ rfl
    · intro x task hx
      rw [show p.working = none from hw] at hx
      cases hx
    · intro e he
      have hbusy := hproc.busy e he
      have hsame := busy_setSide s p r ((s.sides r).stopLifecycle true) s.broken e hbusy
        (fun her => her ▸ ⟨hbusy.state, hbusy.undeparted⟩)
      exact ⟨hsame.relation, hsame.free, hsame.transition, hsame.state, hsame.undeparted⟩
    · exact pending_setSide s p r _ hproc fun hd => hd
  · by_cases hstarted : s.Started r
    · exact Or.inl ⟨hstarted, hd⟩
    · right
      left
      simpa [UnitRelations.Started, RelationSide.stopLifecycle] using hstarted

omit [DecidableEq R] hw in
/-- Nothing is read while relations are still to be departed or added. -/
theorem observed_none (hmore : p.removed ≠ [] ∨ p.added ≠ []) : p.observed = none := by
  cases ho : p.observed with
  | none => rfl
  | some newRelations =>
    obtain ⟨-, hremoved, hadded, -⟩ := (h.process p hp).lists.observed newRelations ho
    rcases hmore with hne | hne
    · exact absurd hremoved hne
    · exact absurd hadded hne

theorem sound_beginDepart (r : R) (removed : List R) (hload : p.toLoad = [])
    (hremoved : p.removed = r :: removed) (hfree : p.isBusy r = false) :
    Sound isPrincipal isContainer (s.setProcess { p with
      relations := p.relations.filter (· ≠ r)
      removed := removed
      working := some (r, .depart)
      ops := transitionState (s.sides r).state .departed }) := by
  have hproc := h.process p hp
  have hl := hproc.lists
  have hobserved := observed_none s p h hp (Or.inl (by rw [hremoved]; simp))
  obtain ⟨hrel, hgone⟩ := hl.removed r (by rw [hremoved]; simp)
  have hstate := relations_state s p h hp r hrel (by rw [hw]; simp)
  have hnodup : r ∉ removed ∧ removed.Nodup := by
    have hall := hl.removedOnce
    rw [hremoved] at hall
    exact List.nodup_cons.mp hall
  have hrest (x : R) : x ∈ p.relations.filter (· ≠ r) ↔ x ∈ p.relations ∧ x ≠ r := by
    rw [List.mem_filter]
    simp
  have hidle (x : R) (task : Task) : p.working ≠ some (x, task) := by
    rw [hw]
    simp
  refine sound_setProcess s p _ h hp ⟨⟨?_, ?_, ?_, ?_, ?_, hl.addedOnce, ?_, hnodup.2, ?_, ?_, ?_,
    ?_⟩, ?_, ?_, hproc.pending⟩ rfl
  · intro x hx
    exact hl.known x (hx.imp_left fun hin => ((hrest x).mp hin).1)
  · intro x hx
    have hin := (stored_relations s p h hp hload x hx).resolve_right (hidle x .depart)
    by_cases hxr : x = r
    · exact Or.inr (Or.inr (by rw [hxr]))
    · exact Or.inl ((hrest x).mpr ⟨hin, hxr⟩)
  · intro x hx
    exact Or.inl ((hl.kept x ((hrest x).mp hx).1).resolve_right (hidle x .add))
  · exact hl.toLoad
  · intro x hx hlive
    rcases hl.covered x hx hlive with (hin | hin) | hmore | hdep | hcurrent
    · by_cases hxr : x = r
      · exact Or.inr (Or.inr (Or.inl (by rw [hxr])))
      · exact Or.inl (Or.inl ((hrest x).mpr ⟨hin, hxr⟩))
    · exact Or.inl (Or.inr hin)
    · exact Or.inr (Or.inl hmore)
    · exact absurd hdep (hidle x .depart)
    · exact Or.inr (Or.inr (Or.inr hcurrent))
  · intro x hx
    obtain ⟨hnew, hmore⟩ := hl.added x hx
    exact ⟨fun hin => hnew ((hrest x).mp hin).1, hmore⟩
  · intro x hx
    obtain ⟨hin, hg⟩ := hl.removed x (by rw [hremoved]; exact List.mem_cons_of_mem r hx)
    exact ⟨(hrest x).mpr ⟨hin, fun hxr => hnodup.1 (hxr ▸ hx)⟩, hg⟩
  · intro newRelations hseen hnone x
    rw [hl.view newRelations hseen hnone x, hrest x, hremoved, List.mem_cons, not_or, and_assoc]
  · intro newRelations hsome
    rw [show p.observed = none from hobserved] at hsome
    cases hsome
  · rintro (hne | ⟨x, hx⟩)
    · exact absurd hload hne
    · cases hx
  · intro x task hx
    obtain ⟨rfl, rfl⟩ := Prod.mk.inj (Option.some.inj hx)
    refine ⟨⟨?_, hgone, ?_, hload⟩, hobserved, ?_⟩
    · exact fun hin => ((hrest r).mp hin).2 rfl
    · exact fun hin => (hl.added r hin).1 hrel
    · exact departOps_transitionState (s.sides r).state _ hstate (h.filed.broken r)
  · exact busy_begin s p h hp r hfree _ rfl (fun x hx hne => (hrest x).mpr ⟨hx, hne⟩)
      (Or.inr ⟨.depart, rfl⟩)

theorem sound_beginAdd (r : R) (added : List R) (hload : p.toLoad = []) (hremoved : p.removed = [])
    (hadded : p.added = r :: added) (hfree : p.isBusy r = false) :
    Sound isPrincipal isContainer
      (s.setProcess ({ p with added := added }.addRelation r (s.sides r) .add)) := by
  have hproc := h.process p hp
  have hl := hproc.lists
  have hobserved := observed_none s p h hp (Or.inr (by rw [hadded]; simp))
  obtain ⟨hrel, hstored, hlive⟩ := hl.added r (by rw [hadded]; simp)
  have hnodup : r ∉ added ∧ added.Nodup := by
    have hall := hl.addedOnce
    rw [hadded] at hall
    exact List.nodup_cons.mp hall
  have hidle (x : R) (task : Task) : p.working ≠ some (x, task) := by
    rw [hw]
    simp
  have hmine (x : R) : x ∈ p.relations ∨ x ∈ p.added ↔ x ∈ r :: p.relations ∨ x ∈ added := by
    rw [hadded, List.mem_cons, List.mem_cons, or_assoc, or_left_comm]
  have hsync := syncOps_synchronize (s.sides r) hlive (h.filed.fresh r)
  refine sound_setProcess s p _ h hp ⟨⟨?_, ?_, ?_, hl.toLoad, ?_, hnodup.2, ?_, hl.removedOnce, ?_,
    ?_, ?_, ?_⟩, ?_, ?_, hproc.pending⟩ rfl
  · rintro x (hx | hx | hx)
    · exact hl.known x (((hmine x).mpr (Or.inl hx)).imp_right Or.inl)
    · exact hl.known x (((hmine x).mpr (Or.inr hx)).imp_right Or.inl)
    · exact hl.known x (Or.inr (Or.inr hx))
  · intro x hx
    have hin := (stored_relations s p h hp hload x hx).resolve_right (hidle x .depart)
    exact Or.inl (List.mem_cons_of_mem r hin)
  · intro x hx
    rcases List.mem_cons.mp hx with rfl | hx
    · exact Or.inr rfl
    · exact Or.inl ((hl.kept x hx).resolve_right (hidle x .add))
  · intro x hx hend
    rcases hl.covered x hx hend with (hin | hin | hin) | hmore | hdep | hcurrent
    · exact Or.inl (((hmine x).mp (Or.inl hin)).imp_right Or.inl)
    · exact Or.inl (((hmine x).mp (Or.inr hin)).imp_right Or.inl)
    · exact Or.inl (Or.inr (Or.inr hin))
    · exact Or.inr (Or.inl hmore)
    · exact absurd hdep (hidle x .depart)
    · exact Or.inr (Or.inr (Or.inr hcurrent))
  · intro x hx
    obtain ⟨hnew, hmore⟩ := hl.added x (by rw [hadded]; exact List.mem_cons_of_mem r hx)
    refine ⟨fun hin => ?_, hmore⟩
    rcases List.mem_cons.mp hin with rfl | hin
    · exact hnodup.1 hx
    · exact hnew hin
  · intro x hx
    rw [show p.removed = [] from hremoved] at hx
    cases hx
  · intro newRelations hseen hnone x
    have hview := hl.view newRelations hseen hnone x
    rw [hremoved] at hview
    simp only [List.not_mem_nil, not_false_iff, and_true] at hview
    rw [hview, hmine x, show p.removed = [] from hremoved]
    simp [AgentProcess.addRelation]
  · intro newRelations hsome
    rw [show p.observed = none from hobserved] at hsome
    cases hsome
  · rintro (hne | ⟨x, hx⟩)
    · exact absurd hload hne
    · cases hx
  · intro x task hx
    obtain ⟨rfl, rfl⟩ := Prod.mk.inj (Option.some.inj hx)
    exact ⟨⟨List.mem_cons_self .., hstored, hload, hremoved⟩, hobserved, hlive, hsync⟩
  · exact busy_begin s p h hp r hfree _ rfl (fun x hx _ => List.mem_cons_of_mem r hx)
      (Or.inr ⟨.add, rfl⟩)

/-- The start of `_process_service_changes`, with the relations that were read. -/
theorem sound_compare (newRelations : List R) (hload : p.toLoad = [])
    (hobserved : p.observed = some newRelations) :
    Sound isPrincipal isContainer (s.setProcess (p.compare newRelations)) := by
  have hproc := h.process p hp
  have hl := hproc.lists
  obtain ⟨hseen, hremoved, hadded, hgone, hlive⟩ := hl.observed newRelations hobserved
  have hidle (x : R) (task : Task) : p.working ≠ some (x, task) := by
    rw [hw]
    simp
  have hfile (x : R) (hx : x ∈ s.stored) : x ∈ p.relations :=
    (stored_relations s p h hp hload x hx).resolve_right (hidle x .depart)
  have hnew (x : R) : x ∈ (p.compare newRelations).added ↔
      x ∈ newRelations ∧ x ∉ p.relations := by
    simp [AgentProcess.compare]
  have hold (x : R) : x ∈ (p.compare newRelations).removed ↔
      x ∈ p.relations ∧ x ∉ newRelations := by
    simp [AgentProcess.compare]
  refine sound_setProcess s p _ h hp ⟨⟨?_, hl.file, hl.kept, hl.toLoad, ?_, List.nodup_dedup _, ?_,
    List.nodup_dedup _, ?_, ?_, ?_, ?_⟩, ?_, ?_, hproc.pending⟩ rfl
  · rintro x (hx | hx | ⟨_, hx, -⟩)
    · exact hl.known x (Or.inl hx)
    · exact hl.known x (Or.inr (Or.inr ⟨newRelations, hobserved, ((hnew x).mp hx).1⟩))
    · cases hx
  · intro x hx hend
    rcases hl.covered x hx hend with (hin | hin | ⟨l, hl', hin⟩) | hmore
    · exact Or.inl (Or.inl hin)
    · rw [hadded] at hin
      cases hin
    · obtain rfl := Option.some.inj (hobserved.symm.trans hl')
      by_cases hrel : x ∈ p.relations
      · exact Or.inl (Or.inl hrel)
      · exact Or.inl (Or.inr (Or.inl ((hnew x).mpr ⟨hin, hrel⟩)))
    · exact Or.inr hmore
  · intro x hx
    obtain ⟨hin, hrel⟩ := (hnew x).mp hx
    exact ⟨hrel, fun hst => hrel (hfile x hst), hlive x hin⟩
  · intro x hx
    obtain ⟨hrel, hin⟩ := (hold x).mp hx
    exact ⟨hrel, hgone x hrel hin⟩
  · intro l hl' _ x
    obtain rfl := Option.some.inj (hseen.symm.trans hl')
    rw [hnew x, hold x, show (p.compare newRelations).relations = p.relations from rfl]
    by_cases hrel : x ∈ p.relations <;> simp [hrel]
  · intro l hl'
    cases hl'
  · rintro (hne | ⟨x, hx⟩)
    · exact absurd hload hne
    · exact absurd hx (hidle x .load)
  · intro x task hx
    exact absurd hx (hidle x task)
  · intro e he
    have hbusy := hproc.busy e he
    exact ⟨hbusy.relation, hbusy.free, hbusy.transition, hbusy.state, hbusy.undeparted⟩

omit hw in
/-- One step of `_load_relations` or of the callback of the watch. -/
theorem sound_proceed (hs : s.proceed isPrincipal isContainer p = some s') :
    Sound isPrincipal isContainer s' := by
  unfold UnitRelations.proceed at hs
  split at hs
  · rename_i r task hw
    split at hs
    · rename_i op ops hops
      obtain rfl := Option.some.inj hs
      by_cases htask : task = .depart
      · subst htask
        exact sound_depart s p h hp r hw op ops hops
      · exact sound_sync s p h hp r task hw op ops hops htask
    · rename_i hops
      obtain rfl := Option.some.inj hs
      exact sound_finish s p h hp r task hw hops
  · rename_i r toLoad hw hload
    dsimp only at hs
    split at hs
    · cases hs
    · rename_i hfree
      have hfree := Bool.eq_false_iff.mpr hfree
      split at hs
      · rename_i hid
        obtain rfl := Option.some.inj hs
        exact sound_load s p h hp hw r toLoad hload hfree hid
      · obtain rfl := Option.some.inj hs
        exact sound_reconstruct s p h hp hw r toLoad hload hfree
  · rename_i r toStop hw hload hstop
    obtain rfl := Option.some.inj hs
    exact sound_stop s p h hp hw r toStop
  · rename_i r removed hw hload hstop hremoved
    split at hs
    · cases hs
    · rename_i hfree
      obtain rfl := Option.some.inj hs
      exact sound_beginDepart s p h hp hw r removed hload hremoved (Bool.eq_false_iff.mpr hfree)
  · rename_i r added hw hload hstop hremoved hadded
    dsimp only at hs
    split at hs
    · cases hs
    · rename_i hfree
      obtain rfl := Option.some.inj hs
      exact sound_beginAdd s p h hp hw r added hload hremoved hadded (Bool.eq_false_iff.mpr hfree)
  · rename_i newRelations hw hload hstop hremoved hadded hobserved
    obtain rfl := Option.some.inj hs
    exact sound_compare s p h hp hw newRelations hload hobserved
  · cases hs

end callback

end Juju.Unit.KnownRelations
