import Mathlib.Logic.ExistsUnique
import Mathlib.Data.Nat.Init

namespace Juju.Lib

/-- Names listed in groups, and nested under other names. -/
structure Nesting (G N : Type) where
  listed : G → N → Prop
  nested : N → N → Prop

namespace Nesting

variable {G N : Type} (s : Nesting G N)

/-- A way from a group down to a name, which comes first. -/
inductive Leads (g : G) : List N → Prop where
  | listed (n : N) : s.listed g n → Leads g [n]
  | nested (p n : N) (path : List N) : Leads g (p :: path) → s.nested p n →
      Leads g (n :: p :: path)

/-- There is exactly one way to the name. -/
def Once (n : N) : Prop :=
  ∃! way : G × List N, s.Leads way.1 way.2 ∧ way.2.head? = some n

/-- The one place of a name: in its group, or under its parent when it has one. -/
structure Placed (parent : N → Option N) (group : N → G) (n : N) : Prop where
  root : parent n = none → (∀ g, s.listed g n ↔ g = group n) ∧ ∀ q, ¬ s.nested q n
  child : ∀ p, parent n = some p → (∀ g, ¬ s.listed g n) ∧ ∀ q, s.nested q n ↔ q = p

variable {s}

theorem leads_cons (g : G) (n : N) (path : List N) (h : s.Leads g (n :: path)) :
    (path = [] ∧ s.listed g n) ∨ ∃ p rest, path = p :: rest ∧ s.Leads g path ∧ s.nested p n := by
  cases h with
  | listed _ hlisted => exact Or.inl ⟨rfl, hlisted⟩
  | nested p _ rest hleads hnested => exact Or.inr ⟨p, rest, rfl, hleads, hnested⟩

/-- A name that stands nowhere is not reached. -/
theorem not_once (n : N) (hlisted : ∀ g, ¬ s.listed g n) (hnested : ∀ p, ¬ s.nested p n) :
    ¬ s.Once n := by
  rintro ⟨⟨g, path⟩, ⟨hleads, hhead⟩, -⟩
  cases path with
  | nil => cases hhead
  | cons m path =>
    obtain rfl := Option.some.inj hhead
    rcases leads_cons g m path hleads with ⟨-, h⟩ | ⟨p, rest, -, -, h⟩
    · exact hlisted g h
    · exact hnested p h

variable {parent : N → Option N} {group : N → G}

theorem once_root (n : N) (h : s.Placed parent group n) (hroot : parent n = none) :
    s.Once n := by
  obtain ⟨hlisted, hnested⟩ := h.root hroot
  refine ⟨(group n, [n]), ⟨.listed n ((hlisted _).mpr rfl), rfl⟩, ?_⟩
  rintro ⟨g, path⟩ ⟨hleads, hhead⟩
  cases path with
  | nil => cases hhead
  | cons m path =>
    obtain rfl := Option.some.inj hhead
    rcases leads_cons g m path hleads with ⟨rfl, h⟩ | ⟨p, rest, -, -, h⟩
    · rw [(hlisted g).mp h]
    · exact absurd h (hnested p)

/-- The ways to a name go on from the ways to its parent. -/
theorem once_child (n p : N) (h : s.Placed parent group n) (hparent : parent n = some p)
    (hp : s.Once p) : s.Once n := by
  obtain ⟨hlisted, hnested⟩ := h.child p hparent
  obtain ⟨⟨g, path⟩, ⟨hleads, hhead⟩, hunique⟩ := hp
  cases path with
  | nil => cases hhead
  | cons q path =>
    obtain rfl := Option.some.inj hhead
    refine ⟨(g, n :: q :: path), ⟨.nested q n path hleads ((hnested q).mpr rfl), rfl⟩, ?_⟩
    rintro ⟨g', path'⟩ ⟨hleads', hhead'⟩
    cases path' with
    | nil => cases hhead'
    | cons m path' =>
      obtain rfl := Option.some.inj hhead'
      rcases leads_cons g' m path' hleads' with ⟨-, h⟩ | ⟨p, rest, rfl, hup, h⟩
      · exact absurd h (hlisted g')
      · obtain rfl := (hnested p).mp h
        have hsame := hunique (g', p :: rest) ⟨hup, rfl⟩
        rw [Prod.mk.injEq] at hsame
        rw [hsame.1, hsame.2]

/-- Names that each have their place, with no chain of parents that never ends, are each reached
in exactly one way. -/
theorem once_of_placed (present : N → Prop) (rank : N → Nat)
    (hplaced : ∀ n, present n → s.Placed parent group n)
    (hparent : ∀ n p, present n → parent n = some p → present p ∧ rank p < rank n) (n : N)
    (hn : present n) : s.Once n := by
  induction hrank : rank n using Nat.strongRecOn generalizing n with
  | _ r ih =>
    cases hup : parent n with
    | none => exact once_root n (hplaced n hn) hup
    | some p =>
      obtain ⟨hp, hlt⟩ := hparent n p hn hup
      exact once_child n p (hplaced n hn) hup (ih (rank p) (hrank ▸ hlt) p hp rfl)

end Nesting

end Juju.Lib
