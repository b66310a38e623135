import Mathlib.Order.Bounds.Basic
import Mathlib.Order.MinMax
import Juju.Base.Runs

namespace Juju.Lib
open Juju.Base

variable {L : Type}

/-- A `LogIterator`, as it is while it waits. -/
structure LogIterator where
  containerExists : Bool
  replay : Bool
  logIndex : Option Nat
  lastSeenIndex : Nat
deriving DecidableEq

def LogIterator.new (replay : Bool) : LogIterator := ⟨false, replay, none, 0⟩

/-- What a call of `next` waits for. -/
inductive Pending (L : Type) where
  | container
  | containerWatch
  | lastSeen
  | entry (index : Nat)
  | entryExists (index : Nat)
  | entryWatch (index : Nat)
  /-- The marker has been sent, and is not yet stored. -/
  | update (index : Nat) (data : L)
  /-- The marker is stored, and the entry not yet handed out. -/
  | updated (index : Nat) (data : L)
deriving DecidableEq

namespace LogIterator

/-- `next`, up to where it waits. -/
def next (it : LogIterator) : Pending L :=
  if it.containerExists then
    match it.logIndex with
    | none => .lastSeen
    | some index => .entry index
  else .container

/-- `_get_last_seen` has read the container; content that is no dictionary or has no
`next-log-index` is `none`. -/
def seen (it : LogIterator) (content : Option Nat) : LogIterator :=
  let lastSeen := content.getD 0
  { it with
    lastSeenIndex := lastSeen
    logIndex := some (if it.replay then 0 else lastSeen) }

/-- The entry at `index` has been read. -/
def passed (it : LogIterator) (index : Nat) : LogIterator :=
  { it with
    logIndex := some (index + 1)
    replay := it.replay && ¬ it.lastSeenIndex < index + 1 }

end LogIterator

/-- The log, and the process that iterates over it. -/
structure LogWorld (L : Type) where
  /-- The content of the container, where it exists. -/
  container : Option (Option Nat)
  entries : List L
  iterator : LogIterator
  pending : Option (Pending L)
  /-- Markers that killed processes have sent and that are not yet stored. -/
  late : List Nat
  /-- What the process has been handed, and where it is in the log. -/
  current : List (L × Nat)
  /-- What the processes before it were handed, the last one first. -/
  earlier : List (List (L × Nat))

namespace LogWorld

/-- The stored marker. -/
def marker (w : LogWorld L) : Nat := (w.container.getD none).getD 0

def containerFound (w : LogWorld L) : LogWorld L :=
  let it := { w.iterator with containerExists := true }
  { w with iterator := it, pending := some it.next }

def hand (w : LogWorld L) (index : Nat) (data : L) : LogWorld L :=
  { w with pending := none, current := w.current ++ [(data, index)] }

/-- What `next` does with an entry. -/
def read (w : LogWorld L) (seenBlockSize : Int) (index : Nat) (data : L) : LogWorld L :=
  let it := w.iterator.passed index
  if seenBlockSize = 0 then { w with iterator := it, pending := none } -- `ZeroDivisionError`
  else if seenBlockSize ∣ (index + 1 : Nat) then
    if it.replay then { w with iterator := it }.hand index data
    else { w with iterator := it, pending := some (.update index data) }
  else { w with iterator := it }.hand index data

/-- What a call waits for arrives; `none` while a watch has not fired. -/
def answer (w : LogWorld L) (seenBlockSize : Int) : Pending L → Option (LogWorld L)
  | .container =>
    if w.container.isSome then some w.containerFound
    else some { w with pending := some .containerWatch }
  | .containerWatch => if w.container.isSome then some w.containerFound else none
  | .lastSeen =>
    match w.container with
    | none => some { w with pending := none } -- `NoNodeException`
    | some content =>
      let it := w.iterator.seen content
      some { w with iterator := it, pending := some it.next }
  | .entry index =>
    match w.entries[index]? with
    | none => some { w with pending := some (.entryExists index) }
    | some data => some (w.read seenBlockSize index data)
  | .entryExists index =>
    if index < w.entries.length then some { w with pending := some w.iterator.next }
    else some { w with pending := some (.entryWatch index) }
  | .entryWatch index =>
    if index < w.entries.length then some { w with pending := some w.iterator.next } else none
  -- The container has been read by then, and nothing deletes it.
  | .update index data =>
    some { w with container := some (some (index + 1)), pending := some (.updated index data) }
  | .updated index data => some (w.hand index data)

/-- The marker on its way, where there is one. -/
def sent (w : LogWorld L) : List Nat :=
  match w.pending with
  | some (.update index _) => [index + 1]
  | _ => []

/-- The process is killed, and another one begins. -/
def restart (w : LogWorld L) (replay : Bool) : LogWorld L :=
  { w with
    iterator := .new replay
    pending := none
    late := w.sent ++ w.late
    current := []
    earlier := w.current :: w.earlier }

end LogWorld

/-- What happens; a call is made once the one before it has returned. -/
inductive LogEvent (L : Type) where
  | append (data : L)
  | createContainer
  | next
  | answer
  | restart
  | late (marker : Nat)

open LogWorld

def logStep (replay : Bool) (seenBlockSize : Int) (w : LogWorld L) :
    LogEvent L → Option (LogWorld L)
  | .append data => some { w with entries := w.entries ++ [data] }
  | .createContainer => if w.container.isSome then none else some { w with container := some none }
  | .next => if w.pending.isSome then none else some { w with pending := some w.iterator.next }
  | .answer => w.pending.bind (w.answer seenBlockSize)
  | .restart => some (w.restart replay)
  | .late marker =>
    if marker ∈ w.late then
      some { w with container := some (some marker), late := w.late.erase marker }
    else none

/-- A marker is stored, and its entry not yet handed out. -/
def LogWorld.handingOut (w : LogWorld L) : Bool :=
  match w.pending with
  | some (.updated _ _) => true
  | _ => false

/-- No process is restarted between its marker being stored and the entry being handed out, and no
marker of a killed process is stored. -/
def MarkerHandedOut (w : LogWorld L) : LogEvent L → Bool
  | .restart => ¬ w.handingOut
  | .late _ => false
  | _ => true

/-- The first process, where the marker says that it starts. -/
def FreshIterator (start : Nat) (w : LogWorld L) : Prop :=
  w.marker = start ∧ w.iterator = .new false ∧ w.pending = none ∧ w.current = [] ∧ w.earlier = []

/-- The first index that is in none of the lists. -/
def NextUndelivered (start : Nat) (handed : List (List (L × Nat))) (u : Nat) : Prop :=
  IsLeast {j | start ≤ j ∧ j ∉ handed.flatten.map Prod.snd} u

/-- Each process begins less than one block behind what those before it were not handed, and not
beyond it. -/
def ResumesBehind (start : Nat) (seenBlockSize : Int) : List (List (L × Nat)) → Prop
  | [] => True
  | handed :: earlier =>
    (∀ first ∈ handed.head?, ∃ u, NextUndelivered start earlier u ∧
      first.2 ≤ u ∧ u < first.2 + seenBlockSize.natAbs) ∧ ResumesBehind start seenBlockSize earlier

structure SkipsNothing (start : Nat) (seenBlockSize : Int) (w : LogWorld L) : Prop where
  consecutive : ∀ handed ∈ w.current :: w.earlier, handed <:+: w.entries.zipIdx
  resumes : ResumesBehind start seenBlockSize (w.current :: w.earlier)

section handed

variable (start : Nat) (handed : List (List (L × Nat))) (u : Nat)

/-- What has been handed out is what lies between the start and `u`. -/
def HandedUpTo : Prop :=
  start ≤ u ∧ ∀ j, j ∈ handed.flatten.map Prod.snd ↔ start ≤ j ∧ j < u

variable {start handed u}

theorem nextUndelivered_of (h : HandedUpTo start handed u) : NextUndelivered start handed u := by
  refine ⟨⟨h.1, fun hu => ?_⟩, fun j hj => ?_⟩
  · exact Nat.lt_irrefl u ((h.2 u).mp hu).2
  · by_contra hlt
    exact hj.2 ((h.2 j).mpr ⟨hj.1, Nat.lt_of_not_le hlt⟩)

theorem handedUpTo_snoc (current : List (L × Nat)) (earlier : List (List (L × Nat))) (index : Nat)
    (data : L) (h : HandedUpTo start (current :: earlier) u) (hstart : start ≤ index)
    (hindex : index ≤ u) :
    HandedUpTo start ((current ++ [(data, index)]) :: earlier) (max u (index + 1)) := by
  refine ⟨h.1.trans (le_max_left u (index + 1)), fun j => ?_⟩
  have hold := h.2 j
  simp only [List.flatten_cons, List.map_append, List.mem_append] at hold ⊢
  rw [or_right_comm, hold]
  simp only [List.map_cons, List.map_nil, List.mem_singleton]
  omega

end handed

/-- The last entry of a piece of the log stands where the piece ends. -/
theorem infix_last (entries : List L) (before handed after : List (L × Nat)) (last : L × Nat)
    (h : before ++ handed ++ after = entries.zipIdx) (hlast : last ∈ handed.getLast?) :
    last.2 + 1 = (before ++ handed).length := by
  obtain ⟨init, rfl⟩ := List.getLast?_eq_some_iff.mp hlast
  have hat : entries.zipIdx[(before ++ init).length]? = some last := by
    rw [← h]
    simp
  rw [List.getElem?_zipIdx, Option.map_eq_some_iff] at hat
  obtain ⟨data, -, rfl⟩ := hat
  simp [Nat.add_assoc]

/-- An entry that comes after a piece of the log makes it longer. -/
theorem infix_snoc (entries : List L) (handed : List (L × Nat)) (index : Nat) (data : L)
    (h : handed <:+: entries.zipIdx) (hlast : ∀ last ∈ handed.getLast?, last.2 + 1 = index)
    (hdata : entries[index]? = some data) : handed ++ [(data, index)] <:+: entries.zipIdx := by
  have hentry : entries.zipIdx[index]? = some (data, index) := by simp [hdata]
  rcases List.eq_nil_or_concat handed with rfl | ⟨init, last, hinit⟩
  · obtain ⟨before, after, hsplit⟩ := List.append_of_mem (List.mem_of_getElem? hentry)
    exact ⟨before, after, by simp [hsplit]⟩
  obtain ⟨before, after, hsplit⟩ := h
  have hmem : last ∈ handed.getLast? := by simp [hinit]
  have hlength : index = (before ++ handed).length := by
    rw [← hlast last hmem]
    exact infix_last entries before handed after last hsplit hmem
  have hafter : after.head? = some (data, index) := by
    rw [← hsplit, hlength, List.getElem?_append_right (Nat.le_refl _), Nat.sub_self] at hentry
    rw [List.head?_eq_getElem?, hentry, hlength]
  obtain ⟨rest, rfl⟩ := List.head?_eq_some_iff.mp hafter
  exact ⟨before, rest, by simpa using hsplit⟩

/-- Where no multiple lies between two numbers, they are less than that apart. -/
theorem lt_add_of_no_multiple (size : Int) (m u : Nat) (hsize : size ≠ 0)
    (h : ∀ j, m < j → j ≤ u → ¬ size ∣ (j : Nat)) : u < m + size.natAbs := by
  have hpos : 0 < size.natAbs := Int.natAbs_pos.mpr hsize
  by_contra hle
  have hmod : m % size.natAbs < size.natAbs := Nat.mod_lt _ hpos
  have hmultiple : size ∣ ((m / size.natAbs + 1) * size.natAbs : Nat) := by
    rw [← Int.natAbs_dvd_natAbs]
    exact Nat.dvd_mul_left _ _
  have hdiv := Nat.div_add_mod m size.natAbs
  refine h _ ?_ ?_ hmultiple <;> rw [Nat.add_mul, Nat.mul_comm] <;> omega

section invariant

variable (start : Nat) (seenBlockSize : Int)

/-- The next entry to be read comes after the last one handed out, or is at the marker. -/
structure ReadsAt (w : LogWorld L) (u index : Nat) : Prop where
  le : index ≤ u
  marker_le : w.marker ≤ index
  first : w.current = [] → index = w.marker
  last : ∀ last ∈ w.current.getLast?, last.2 + 1 = index

/-- No marker is on its way. -/
structure Reads (w : LogWorld L) (u : Nat) : Prop where
  marker_le : w.marker ≤ u
  fresh : w.iterator.logIndex = none → w.current = []
  reads : ∀ index, w.iterator.logIndex = some index → seenBlockSize ≠ 0 → ReadsAt w u index

/-- The entry that waits for its marker to be stored was not handed out before. -/
structure Updates (w : LogWorld L) (u index : Nat) (data : L) : Prop where
  logIndex : w.iterator.logIndex = some (u + 1)
  index : index = u
  size : seenBlockSize ≠ 0
  data : w.entries[u]? = some data
  last : ∀ last ∈ w.current.getLast?, last.2 + 1 = u

def Stands (w : LogWorld L) (u : Nat) : Option (Pending L) → Prop
  | some (.update index data) => Updates seenBlockSize w u index data ∧ w.marker ≤ u
  | some (.updated index data) => Updates seenBlockSize w u index data ∧ w.marker = u + 1
  | some (.entry index) => Reads seenBlockSize w u ∧ w.iterator.logIndex = some index
  | some .lastSeen => Reads seenBlockSize w u ∧ w.iterator.logIndex = none
  | _ => Reads seenBlockSize w u

structure IteratorInv (w : LogWorld L) (u : Nat) : Prop where
  replay : w.iterator.replay = false
  start_le : start ≤ w.marker
  handed : HandedUpTo start (w.current :: w.earlier) u
  gap : ∀ j, w.marker < j → j ≤ u → ¬ seenBlockSize ∣ (j : Nat)
  skipsNothing : SkipsNothing start seenBlockSize w
  stands : Stands seenBlockSize w u w.pending

variable {start seenBlockSize}

theorem stands_next (w : LogWorld L) (u : Nat) (it : LogIterator)
    (hit : it.logIndex = w.iterator.logIndex) (h : Reads seenBlockSize w u) :
    Stands seenBlockSize w u (some it.next) := by
  unfold LogIterator.next
  split
  · cases hindex : it.logIndex with
    | none => exact ⟨h, hit.symm.trans hindex⟩
    | some index => exact ⟨h, hit.symm.trans hindex⟩
  · exact h

theorem stands_reads (w : LogWorld L) (u : Nat) (pending : Option (Pending L))
    (h : Stands seenBlockSize w u pending)
    (hupdate : ∀ index data, pending ≠ some (.update index data))
    (hupdated : ∀ index data, pending ≠ some (.updated index data)) :
    Reads seenBlockSize w u := by
  cases pending with
  | none => exact h
  | some p =>
    cases p with
    | update index data => exact absurd rfl (hupdate index data)
    | updated index data => exact absurd rfl (hupdated index data)
    | entry index => exact h.1
    | lastSeen => exact h.1
    | _ => exact h

/-- Handing out the entry after the last one, with the marker not beyond it. -/
theorem hand_inv (w : LogWorld L) (u index : Nat) (data : L) (hreplay : w.iterator.replay = false)
    (hstart : start ≤ w.marker) (hhanded : HandedUpTo start (w.current :: w.earlier) u)
    (hskips : SkipsNothing start seenBlockSize w) (hindex : w.iterator.logIndex = some (index + 1))
    (hle : index ≤ u) (hstarts : start ≤ index) (hmarker : w.marker ≤ index + 1)
    (hdata : w.entries[index]? = some data) (hlast : ∀ last ∈ w.current.getLast?, last.2 + 1 = index)
    (hfirst : w.current = [] → u < index + seenBlockSize.natAbs)
    (hgap : ∀ j, w.marker < j → j ≤ max u (index + 1) → ¬ seenBlockSize ∣ (j : Nat)) :
    IteratorInv start seenBlockSize (w.hand index data) (max u (index + 1)) where
  replay := hreplay
  start_le := hstart
  handed := handedUpTo_snoc w.current w.earlier index data hhanded hstarts hle
  gap := hgap
  skipsNothing := by
    obtain ⟨hconsecutive, hresumes⟩ := hskips
    rw [List.forall_mem_cons] at hconsecutive
    refine ⟨List.forall_mem_cons.mpr ⟨?_, hconsecutive.2⟩, ⟨fun first hhead => ?_, hresumes.2⟩⟩
    · exact infix_snoc w.entries w.current index data hconsecutive.1 hlast hdata
    · cases hcurrent : w.current with
      | nil =>
        have hearlier : HandedUpTo start w.earlier u := by simpa [HandedUpTo, hcurrent] using hhanded
        have hhere : (data, index) = first := by simpa [hand, hcurrent] using hhead
        rw [← hhere]
        exact ⟨u, nextUndelivered_of hearlier, hle, hfirst hcurrent⟩
      | cons entry rest => exact hresumes.1 first (by simpa [hand, hcurrent] using hhead)
  stands := by
    refine ⟨hmarker.trans (le_max_right _ _), fun hnone => ?_, fun i hi _ => ?_⟩
    · simp [hand, hindex] at hnone
    · obtain rfl : index + 1 = i := Option.some.inj (hindex.symm.trans hi)
      refine ⟨le_max_right _ _, hmarker, fun hnil => ?_, fun last hmem => ?_⟩
      · simp [hand] at hnil
      · obtain rfl : (data, index) = last := by simpa [hand] using hmem
        rfl

theorem read_container (w : LogWorld L) (index : Nat) (data : L) :
    (w.read seenBlockSize index data).container = w.container := by
  unfold LogWorld.read
  dsimp only
  split_ifs <;> rfl

theorem read_inv (w : LogWorld L) (u index : Nat) (data : L) (h : IteratorInv start seenBlockSize w u)
    (hpending : w.pending = some (.entry index)) (hdata : w.entries[index]? = some data) :
    ∃ u', IteratorInv start seenBlockSize (w.read seenBlockSize index data) u' := by
  have hstands := h.stands
  rw [hpending] at hstands
  obtain ⟨hreads, hindex⟩ := hstands
  have hreplay : (w.iterator.passed index).replay = false := by simp [LogIterator.passed, h.replay]
  obtain ⟨hconsecutive, hresumes⟩ := h.skipsNothing
  have hskips {iterator : LogIterator} {pending : Option (Pending L)} :
      SkipsNothing start seenBlockSize { w with iterator := iterator, pending := pending } :=
    ⟨hconsecutive, hresumes⟩
  unfold LogWorld.read
  by_cases hzero : seenBlockSize = 0
  · rw [if_pos hzero]
    refine ⟨u, hreplay, h.start_le, h.handed, h.gap, hskips, hreads.marker_le, ?_, ?_⟩
    · intro hnone
      cases hnone
    · intro i _ hsize
      exact absurd hzero hsize
  have hat := hreads.reads index hindex hzero
  simp only [hzero, hreplay, Bool.false_eq_true, if_false]
  by_cases hblock : seenBlockSize ∣ (index + 1 : Nat)
  · rw [if_pos hblock]
    have hbeyond : ¬ index + 1 ≤ u := fun hle =>
      h.gap (index + 1) (Nat.lt_succ_of_le hat.marker_le) hle hblock
    obtain rfl : index = u := le_antisymm hat.le (Nat.le_of_not_lt hbeyond)
    exact ⟨index, hreplay, h.start_le, h.handed, h.gap, hskips,
      ⟨rfl, rfl, hzero, hdata, hat.last⟩, hreads.marker_le⟩
  · rw [if_neg hblock]
    refine ⟨max u (index + 1), hand_inv { w with iterator := w.iterator.passed index } u index data
      hreplay h.start_le h.handed hskips rfl hat.le (h.start_le.trans hat.marker_le)
      (Nat.le_succ_of_le hat.marker_le) hdata hat.last (fun hnil => ?_) (fun j hj hle => ?_)⟩
    · rw [hat.first hnil]
      exact lt_add_of_no_multiple seenBlockSize w.marker u hzero h.gap
    · rcases le_max_iff.mp hle with hu | hnext
      · exact h.gap j hj hu
      · rcases hnext.lt_or_eq with hlt | rfl
        · exact h.gap j hj ((Nat.le_of_lt_succ hlt).trans hat.le)
        · exact hblock

/-- A step that hands nothing out and leaves the marker and the index. -/
theorem frame_inv (w w' : LogWorld L) (u : Nat) (h : IteratorInv start seenBlockSize w u)
    (hreplay : w'.iterator.replay = w.iterator.replay)
    (hindex : w'.iterator.logIndex = w.iterator.logIndex) (hcurrent : w'.current = w.current)
    (hearlier : w'.earlier = w.earlier) (hentries : w.entries <+: w'.entries)
    (hmarker : w'.marker = w.marker) (hstands : Stands seenBlockSize w u w'.pending) :
    IteratorInv start seenBlockSize w' u := by
  have hreads (hw : Reads seenBlockSize w u) : Reads seenBlockSize w' u := by
    refine ⟨hmarker ▸ hw.marker_le, fun hnone => ?_, fun index hi hsize => ?_⟩
    · rw [hcurrent]
      exact hw.fresh (hindex ▸ hnone)
    · obtain ⟨hle, hmarkerLe, hfirst, hlast⟩ := hw.reads index (hindex ▸ hi) hsize
      exact ⟨hle, by rwa [hmarker], by rwa [hcurrent, hmarker], by rwa [hcurrent]⟩
  have hupdates (index : Nat) (data : L) (hw : Updates seenBlockSize w u index data) :
      Updates seenBlockSize w' u index data := by
    obtain ⟨more, hmore⟩ := hentries
    refine ⟨hindex ▸ hw.logIndex, hw.index, hw.size, ?_, by rw [hcurrent]; exact hw.last⟩
    rw [← hmore, List.getElem?_append_left (List.getElem?_eq_some_iff.mp hw.data).1]
    exact hw.data
  refine ⟨hreplay.trans h.replay, hmarker ▸ h.start_le, ?_, hmarker ▸ h.gap, ⟨?_, ?_⟩, ?_⟩
  · rw [hcurrent, hearlier]
    exact h.handed
  · obtain ⟨more, hmore⟩ := hentries
    rw [hcurrent, hearlier, ← hmore, List.zipIdx_append]
    intro handed hmem
    exact (h.skipsNothing.consecutive handed hmem).trans (List.prefix_append _ _).isInfix
  · rw [hcurrent, hearlier]
    exact h.skipsNothing.resumes
  · cases hpending : w'.pending with
    | none => exact hreads (by simpa [hpending, Stands] using hstands)
    | some p =>
      rw [hpending] at hstands
      cases p with
      | update index data => exact ⟨hupdates index data hstands.1, hmarker ▸ hstands.2⟩
      | updated index data => exact ⟨hupdates index data hstands.1, hmarker ▸ hstands.2⟩
      | entry index => exact ⟨hreads hstands.1, hindex ▸ hstands.2⟩
      | lastSeen => exact ⟨hreads hstands.1, hindex ▸ hstands.2⟩
      | _ => exact hreads hstands

/-- The marker is read, and nothing has been handed to the process. -/
theorem seen_inv (w : LogWorld L) (u : Nat) (content : Option Nat)
    (h : IteratorInv start seenBlockSize w u) (hpending : w.pending = some .lastSeen)
    (hcontainer : w.container = some content) :
    IteratorInv start seenBlockSize
      { w with
        iterator := w.iterator.seen content
        pending := some (w.iterator.seen content).next } u := by
  have hstands := h.stands
  rw [hpending] at hstands
  obtain ⟨hreads, hnone⟩ := hstands
  have hmarker : w.marker = content.getD 0 := by simp [marker, hcontainer]
  refine ⟨h.replay, h.start_le, h.handed, h.gap,
    ⟨h.skipsNothing.consecutive, h.skipsNothing.resumes⟩, ?_⟩
  refine stands_next _ u _ rfl ⟨hreads.marker_le, fun hsome => ?_, fun index hindex _ => ?_⟩
  · cases hsome
  · have hcurrent := hreads.fresh hnone
    obtain rfl : w.marker = index := by
      simpa [LogIterator.seen, h.replay, hmarker] using hindex
    refine ⟨hreads.marker_le, le_refl _, fun _ => rfl, fun last hlast => ?_⟩
    simp [hcurrent] at hlast

/-- The process is killed while its marker, if it has sent one, is not yet stored. -/
theorem restart_inv (w : LogWorld L) (u : Nat) (h : IteratorInv start seenBlockSize w u)
    (hfine : w.handingOut = false) : IteratorInv start seenBlockSize (w.restart false) u := by
  have hupdated (index : Nat) (data : L) : w.pending ≠ some (.updated index data) := by
    intro hpending
    simp [handingOut, hpending] at hfine
  have hle : w.marker ≤ u := by
    by_cases hupdate : ∃ index data, w.pending = some (.update index data)
    · obtain ⟨index, data, hpending⟩ := hupdate
      have hstands := h.stands
      rw [hpending] at hstands
      exact hstands.2
    · exact (stands_reads w u w.pending h.stands
        (fun index data hpending => hupdate ⟨index, data, hpending⟩) hupdated).marker_le
  refine ⟨rfl, h.start_le, by simpa [HandedUpTo, LogWorld.restart] using h.handed, h.gap,
    ⟨?_, ?_⟩, ⟨hle, fun _ => rfl, fun index hindex => ?_⟩⟩
  · exact List.forall_mem_cons.mpr ⟨List.nil_infix, h.skipsNothing.consecutive⟩
  · exact ⟨fun first hfirst => by simp [LogWorld.restart] at hfirst, h.skipsNothing.resumes⟩
  · cases hindex

/-- A call waits on, or waits again. -/
theorem waits_inv (w : LogWorld L) (u : Nat) (it : LogIterator) (pending : Option (Pending L))
    (hreplay : it.replay = w.iterator.replay) (hindex : it.logIndex = w.iterator.logIndex)
    (h : IteratorInv start seenBlockSize w u) (hstands : Stands seenBlockSize w u pending) :
    w.marker ≤ { w with iterator := it, pending := pending }.marker ∧
      ∃ u', IteratorInv start seenBlockSize { w with iterator := it, pending := pending } u' :=
  ⟨le_refl _, u, frame_inv w _ u h hreplay hindex rfl rfl List.prefix_rfl rfl hstands⟩

theorem answer_inv (w w' : LogWorld L) (u : Nat) (pending : Pending L)
    (h : IteratorInv start seenBlockSize w u) (hpending : w.pending = some pending)
    (hanswer : w.answer seenBlockSize pending = some w') :
    w.marker ≤ w'.marker ∧ ∃ u', IteratorInv start seenBlockSize w' u' := by
  have hstands := h.stands
  rw [hpending] at hstands
  have hagain (hreads : Reads seenBlockSize w u) :
      Stands seenBlockSize w u (some w.iterator.next) := stands_next w u w.iterator rfl hreads
  have hfound (hreads : Reads seenBlockSize w u) :
      w.marker ≤ w.containerFound.marker ∧
        ∃ u', IteratorInv start seenBlockSize w.containerFound u' :=
    waits_inv w u _ _ rfl rfl h (stands_next w u _ rfl hreads)
  cases pending with
  | container =>
    rw [answer] at hanswer
    split at hanswer <;> obtain rfl := Option.some.inj hanswer
    · exact hfound hstands
    · exact waits_inv w u w.iterator _ rfl rfl h hstands
  | containerWatch =>
    rw [answer] at hanswer
    split at hanswer
    · obtain rfl := Option.some.inj hanswer
      exact hfound hstands
    · cases hanswer
  | lastSeen =>
    rw [answer] at hanswer
    split at hanswer <;> obtain rfl := Option.some.inj hanswer
    · exact waits_inv w u w.iterator none rfl rfl h hstands.1
    · rename_i content hcontainer
      exact ⟨le_refl _, u, seen_inv w u content h hpending hcontainer⟩
  | entry index =>
    rw [answer] at hanswer
    cases hdata : w.entries[index]? with
    | none =>
      rw [hdata] at hanswer
      obtain rfl := Option.some.inj hanswer
      exact waits_inv w u w.iterator (some (.entryExists index)) rfl rfl h hstands.1
    | some data =>
      rw [hdata] at hanswer
      obtain rfl := Option.some.inj hanswer
      exact ⟨by rw [marker, marker, read_container], read_inv w u index data h hpending hdata⟩
  | entryExists index =>
    rw [answer] at hanswer
    split at hanswer <;> obtain rfl := Option.some.inj hanswer
    · exact waits_inv w u w.iterator _ rfl rfl h (hagain hstands)
    · exact waits_inv w u w.iterator _ rfl rfl h hstands
  | entryWatch index =>
    rw [answer] at hanswer
    split at hanswer
    · obtain rfl := Option.some.inj hanswer
      exact waits_inv w u w.iterator _ rfl rfl h (hagain hstands)
    · cases hanswer
  | update index data =>
    obtain rfl := Option.some.inj hanswer
    obtain ⟨hupdates, hmarker⟩ := hstands
    obtain rfl := hupdates.index
    refine ⟨Nat.le_succ_of_le hmarker, index, h.replay, ?_, h.handed, ?_, ?_, ?_⟩
    · exact h.start_le.trans (Nat.le_succ_of_le hmarker)
    · intro j hj hle
      exact absurd hle (Nat.not_le_of_lt (Nat.lt_of_succ_lt hj))
    · exact ⟨h.skipsNothing.consecutive, h.skipsNothing.resumes⟩
    · exact ⟨⟨hupdates.logIndex, rfl, hupdates.size, hupdates.data, hupdates.last⟩, rfl⟩
  | updated index data =>
    obtain rfl := Option.some.inj hanswer
    obtain ⟨hupdates, hmarker⟩ := hstands
    obtain rfl := hupdates.index
    refine ⟨le_refl _, _, hand_inv w index index data h.replay h.start_le h.handed h.skipsNothing
      hupdates.logIndex (le_refl _) h.handed.1 hmarker.le hupdates.data hupdates.last
      (fun _ => ?_) (fun j hj hle => ?_)⟩
    · exact Nat.lt_add_of_pos_right (Int.natAbs_pos.mpr hupdates.size)
    · rw [max_eq_right (Nat.le_succ index)] at hle
      exact absurd (hle.trans hmarker.ge) (Nat.not_le_of_lt hj)

theorem logStep_inv (w w' : LogWorld L) (u : Nat) (e : LogEvent L)
    (h : IteratorInv start seenBlockSize w u) (hfine : MarkerHandedOut w e = true)
    (hstep : logStep false seenBlockSize w e = some w') :
    w.marker ≤ w'.marker ∧ ∃ u', IteratorInv start seenBlockSize w' u' := by
  cases e with
  | append data =>
    obtain rfl := Option.some.inj hstep
    exact ⟨le_refl _, u, frame_inv w _ u h rfl rfl rfl rfl (List.prefix_append _ _) rfl h.stands⟩
  | createContainer =>
    rw [logStep] at hstep
    split at hstep
    · cases hstep
    · rename_i hcontainer
      obtain rfl := Option.some.inj hstep
      have hnone : w.container = none := by simpa using hcontainer
      have hmarker : w.marker = { w with container := some none }.marker := by
        simp [marker, hnone]
      exact ⟨hmarker.le, u, frame_inv w _ u h rfl rfl rfl rfl List.prefix_rfl hmarker.symm h.stands⟩
  | next =>
    rw [logStep] at hstep
    split at hstep
    · cases hstep
    · rename_i hidle
      obtain rfl := Option.some.inj hstep
      have hnone : w.pending = none := by simpa using hidle
      have hreads := h.stands
      rw [hnone] at hreads
      exact waits_inv w u w.iterator _ rfl rfl h (stands_next w u w.iterator rfl hreads)
  | answer =>
    obtain ⟨pending, hpending, hanswer⟩ := Option.bind_eq_some_iff.mp hstep
    exact answer_inv w w' u pending h hpending hanswer
  | restart =>
    obtain rfl := Option.some.inj hstep
    exact ⟨le_refl _, u, restart_inv w u h (by simpa [MarkerHandedOut] using hfine)⟩
  | late marker => cases hfine

end invariant

theorem fresh_inv (start : Nat) (seenBlockSize : Int) (w : LogWorld L)
    (h : FreshIterator start w) : IteratorInv start seenBlockSize w start := by
  obtain ⟨rfl, hiterator, hpending, hcurrent, hearlier⟩ := h
  refine ⟨by rw [hiterator]; rfl, le_refl _, ⟨le_refl _, fun j => ?_⟩, ?_, ⟨?_, ?_⟩, ?_⟩
  · simp [hcurrent, hearlier]
  · intro j hlt hle
    exact absurd hle (Nat.not_le_of_lt hlt)
  · simp [hcurrent, hearlier]
  · simp [hcurrent, hearlier, ResumesBehind]
  · rw [hpending]
    refine ⟨le_refl _, fun _ => hcurrent, fun index hindex => ?_⟩
    rw [hiterator] at hindex
    cases hindex

/-- While every stored marker's entry is handed out, the iterator skips nothing. -/
theorem skips_nothing (start : Nat) (seenBlockSize : Int) (w : LogWorld L)
    (h : Reachable (FreshIterator start) (logStep false seenBlockSize)
      (fun w e => MarkerHandedOut w e = true) w) :
    SkipsNothing start seenBlockSize w ∧
      ∀ e w', MarkerHandedOut w e = true → logStep false seenBlockSize w e = some w' →
        w.marker ≤ w'.marker := by
  obtain ⟨u, hinv⟩ := reachable_invariant (fun w => ∃ u, IteratorInv start seenBlockSize w u)
    (fun w hw => ⟨start, fresh_inv start seenBlockSize w hw⟩)
    (fun w w' e hw hfine hstep => by
      obtain ⟨u, hinv⟩ := hw
      exact (logStep_inv w w' u e hinv hfine hstep).2) w h
  exact ⟨hinv.skipsNothing, fun e w' hfine hstep => (logStep_inv w w' u e hinv hfine hstep).1⟩

/-- Two entries, and no marker yet. -/
def twoEntries : LogWorld String := ⟨some none, ["a", "b"], .new false, none, [], [], []⟩

/-- The process is restarted once it has been handed the first entry. -/
theorem skips_nothing_restart :
    SkipsNothing 0 1 (⟨some (some 2), ["a", "b"], ⟨true, false, some 2, 1⟩, none, [], [("b", 1)],
      [[("a", 0)]]⟩ : LogWorld String) :=
  (skips_nothing 0 1 _ (reachable_checked MarkerHandedOut (fun _ _ h => h)
    [.next, .answer, .answer, .answer, .answer, .answer, .restart,
      .next, .answer, .answer, .answer, .answer, .answer] twoEntries _
    (.init _ (by simp [FreshIterator, twoEntries, marker])) rfl)).1

/-- The process is restarted once its marker is stored, and the first entry is not handed out. -/
theorem restart_skips :
    ¬ ∀ (start : Nat) (seenBlockSize : Int) (w : LogWorld String),
      Reachable (FreshIterator start) (logStep false seenBlockSize) (fun _ _ => True) w →
      SkipsNothing start seenBlockSize w ∧
        ∀ e w', logStep false seenBlockSize w e = some w' → w.marker ≤ w'.marker := by
  intro h
  have hskips := (h 0 1 (⟨some (some 2), ["a", "b"], ⟨true, false, some 2, 1⟩, none, [],
    [("b", 1)], [[]]⟩ : LogWorld String) (reachable_stepAll (fun _ _ => trivial)
    [.next, .answer, .answer, .answer, .answer, .restart,
      .next, .answer, .answer, .answer, .answer, .answer] twoEntries _
    (.init _ (by simp [FreshIterator, twoEntries, marker])) rfl)).1
  obtain ⟨u, hnext, hle, -⟩ := hskips.resumes.1 ("b", 1) rfl
  have hzero := hnext.2 ⟨Nat.le_refl 0, by simp⟩
  exact absurd (hle.trans hzero) (by decide)

end Juju.Lib
