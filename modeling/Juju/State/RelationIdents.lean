import Juju.State.StateReads

namespace Juju.State
open Juju.Base Juju.Lib

section digits

/-- `digits.lstrip("0") or '0'`. -/
def normalized (digits : List Char) : List Char :=
  let digits := digits.dropWhile (· = '0')
  if digits = [] then ['0'] else digits

theorem toDigits_head (n : Nat) (h : 0 < n) : (Nat.toDigits 10 n).head? ≠ some '0' := by
  induction n using Nat.strong_induction_on with
  | _ n ih =>
    by_cases hsmall : n < 10
    · have hdigit : ∀ n < 10, 0 < n → [Nat.digitChar n].head? ≠ some '0' := by decide
      rw [Nat.toDigits_of_lt_base hsmall]
      exact hdigit n hsmall h
    · have hbase : 10 ≤ n := Nat.not_lt.mp hsmall
      have hrest := ih (n / 10) (by omega) (by omega)
      rw [Nat.toDigits_of_base_le (by decide) hbase]
      cases hdigits : Nat.toDigits 10 (n / 10) with
      | nil => exact absurd hdigits Nat.toDigits_ne_nil
      | cons c cs =>
        rw [hdigits] at hrest
        simpa using hrest

/-- The zeros in front of a number are not counted. -/
theorem normalized_zeros (zeros digits : List Char) (h : ∀ c ∈ zeros, c = '0') :
    normalized (zeros ++ digits) = normalized digits := by
  unfold normalized
  rw [List.dropWhile_append_of_pos fun c hc => decide_eq_true (h c hc)]

theorem normalized_toDigits (n : Nat) : normalized (Nat.toDigits 10 n) = Nat.toDigits 10 n := by
  rcases Nat.eq_zero_or_pos n with rfl | hpos
  · decide
  · have hhead := toDigits_head n hpos
    cases hdigits : Nat.toDigits 10 n with
    | nil => exact absurd hdigits Nat.toDigits_ne_nil
    | cons c cs =>
      have hc : c ≠ '0' := by simpa [hdigits] using hhead
      simp [normalized, hc]

theorem normalized_leftpad (width : Nat) (digits : List Char) :
    normalized (digits.leftpad width '0') = normalized digits :=
  normalized_zeros _ digits fun _ hc => List.eq_of_mem_replicate hc

theorem toDigits_injective (n n' : Nat) (h : Nat.toDigits 10 n = Nat.toDigits 10 n') : n = n' := by
  have hvalue := congrArg (fun digits => Nat.ofDigitChars 10 digits 0) h
  simpa using hvalue

/-- Digits that are padded to what a number is padded to have only zeros in front of it. -/
theorem leftpad_toDigits (n : Nat) (digits : List Char) (hne : digits ≠ [])
    (h : digits.leftpad 10 '0' = (Nat.toDigits 10 n).leftpad 10 '0') :
    ∃ zeros, (∀ c ∈ zeros, c = '0') ∧ digits = zeros ++ Nat.toDigits 10 n := by
  rcases List.append_eq_append_iff.mp h with ⟨zeros, hpad, hdigits⟩ | ⟨zeros, hpad, hnumber⟩
  · refine ⟨zeros, fun c hc => ?_, hdigits⟩
    exact List.eq_of_mem_replicate (hpad ▸ List.mem_append_right _ hc)
  · cases zeros with
    | nil => exact ⟨[], by simp, by simpa using hnumber.symm⟩
    | cons c zeros =>
      -- The number begins with a zero, so that it is zero, and nothing is left for the digits.
      have hc : c = '0' :=
        List.eq_of_mem_replicate (hpad ▸ List.mem_append_right _ List.mem_cons_self)
      have hzero : n = 0 := by
        by_contra hn
        have hhead := toDigits_head n (Nat.pos_of_ne_zero hn)
        simp [hnumber, hc] at hhead
      rw [hzero, Nat.toDigits_zero] at hnumber
      simp only [List.cons_append, List.cons.injEq, List.nil_eq, List.append_eq_nil_iff] at hnumber
      exact absurd hnumber.2.2 hne

end digits

/-- `"relation-%010d" % n`, the node that is created with the sequence number `n`. -/
def sequenceRelationId (n : Nat) : String :=
  "relation-" ++ String.ofList ((Nat.toDigits 10 n).leftpad 10 '0')

/-- `ServiceRelationState.get_relation_ident`; `none` is an `IndexError`. -/
def getRelationIdent (relationName internalRelationId : String) : Option String :=
  (internalRelationId.toList.splitOn '-')[1]?.map fun digits =>
    String.ofList (relationName.toList ++ ':' :: normalized digits)

/-- `text == name`, where a name of the topology is a `unicode` if it is not ASCII. -/
def isName (k : TextKind) (text : List Char) (name : String) : Bool :=
  text = name.toList && (k = .unicode || text.all fun c => c.toNat < 128)

inductive RelationIdentError where
  | invalidRelationIdentity (relationIdent : String)
  | relationStateNotFound
  | topology (e : TopologyError)

/-- `HookContext.get_relation_id_and_scope`, with the topology that the context has read. -/
def getRelationIdAndScope (t : InternalTopology) (service : ServiceState) (k : TextKind)
    (relationIdent : String) : Except RelationIdentError (String × String) :=
  match relationIdent.toList.splitOn ':' with
  | [relationName, normalizedId] =>
    if k.isdigit normalizedId then
      -- `zfill` of digits, which have no sign.
      let relationId := "relation-".toList ++ normalizedId.leftpad 10 '0'
      match relationStatesForService service t with
      | .error e _ => .error (.topology e)
      | .ok relations _ =>
        match relations.find? fun r =>
            isName k relationName r.relationName && isName k relationId r.internalRelationId with
        | some r => .ok (r.internalRelationId, r.relationScope)
        | none => .error .relationStateNotFound
    else .error (.invalidRelationIdentity relationIdent)
  | _ => .error (.invalidRelationIdentity relationIdent)

/-- The text is the identifier of a relation, but for zeros in front of the number. -/
def Identifies (k : TextKind) (relationIdent : String) (r : ServiceRelationState) : Prop :=
  (k = .unicode ∨ ∀ c ∈ r.relationName.toList, c.toNat < 128) ∧
    ∃ zeros digits, (∀ c ∈ zeros, c = '0') ∧
      getRelationIdent r.relationName r.internalRelationId =
        some (String.ofList (r.relationName.toList ++ ':' :: digits)) ∧
      relationIdent.toList = r.relationName.toList ++ ':' :: (zeros ++ digits)

section idents

theorem sequenceRelationId_toList (n : Nat) :
    (sequenceRelationId n).toList = "relation-".toList ++ (Nat.toDigits 10 n).leftpad 10 '0' := by
  simp [sequenceRelationId]

theorem sequenceRelationId_ascii (n : Nat) : ∀ c ∈ (sequenceRelationId n).toList, c.toNat < 128 := by
  intro c hc
  have hstem : ("relation-".toList.all fun c => decide (c.toNat < 128)) = true := by simp
  rw [sequenceRelationId_toList] at hc
  rcases List.mem_append.mp hc with hc | hc
  · exact of_decide_eq_true (List.all_eq_true.mp hstem c hc)
  · have hdigit := toDigits_isDigit n c hc
    simp only [Char.isDigit, Bool.and_eq_true, decide_eq_true_eq, UInt32.le_iff_toNat_le] at hdigit
    exact Nat.lt_of_le_of_lt hdigit.2 (by decide)

theorem getRelationIdent_sequence (name : String) (n : Nat) :
    getRelationIdent name (sequenceRelationId n) =
      some (String.ofList (name.toList ++ ':' :: Nat.toDigits 10 n)) := by
  have hsplit : (sequenceRelationId n).toList.splitOn '-' =
      ["relation".toList, (Nat.toDigits 10 n).leftpad 10 '0'] := by
    rw [splitOn_eq_iff _ _ _ (by simp)]
    have hdash : '-' ∉ (Nat.toDigits 10 n).leftpad 10 '0' := fun hin =>
      absurd (toDigits_isDigit n '-' hin) (by decide)
    rw [sequenceRelationId_toList]
    refine ⟨by simp, ?_⟩
    simpa using hdash
  rw [getRelationIdent, hsplit, List.getElem?_cons_succ, List.getElem?_cons_zero, Option.map_some,
    normalized_leftpad, normalized_toDigits]

/-- Identifiers of one name are those of one relation. -/
theorem getRelationIdent_injective (name : String) (n n' : Nat)
    (h : getRelationIdent name (sequenceRelationId n) =
      getRelationIdent name (sequenceRelationId n')) : n = n' := by
  rw [getRelationIdent_sequence, getRelationIdent_sequence, Option.some.injEq,
    String.ofList_inj, List.append_cancel_left_eq, List.cons.injEq] at h
  exact toDigits_injective n n' h.2

theorem isName_iff (k : TextKind) (text : List Char) (name : String) :
    isName k text name = true ↔
      text = name.toList ∧ (k = .unicode ∨ ∀ c ∈ name.toList, c.toNat < 128) := by
  simp only [isName, Bool.and_eq_true, Bool.or_eq_true, decide_eq_true_eq, List.all_eq_true]
  constructor
  · rintro ⟨rfl, h⟩
    exact ⟨rfl, h⟩
  · rintro ⟨rfl, h⟩
    exact ⟨rfl, h⟩

variable (t : InternalTopology) (service : ServiceState) (relations : List ServiceRelationState)
    (h : relationStatesForService service t = .ok relations t)
include h

/-- A service has one state of each of its relations. -/
theorem relationStates_unique (r r' : ServiceRelationState) (hr : r ∈ relations)
    (hr' : r' ∈ relations) (hid : r.internalRelationId = r'.internalRelationId) : r = r' := by
  have hlist : relations = (t.relationsForService service.internalId).map fun info =>
      ⟨service.internalId, info.relationId, info.scope, info.service.role, info.service.name⟩ := by
    obtain ⟨infos, t', hinfos, hrest⟩ := bind_ok _ _ _ _ _ h
    have hin : service.internalId ∈ t.services := by
      by_contra hout
      rw [getRelationsForService, assertService_bind, if_neg hout] at hinfos
      cases hinfos
    rw [getRelationsForService, assertService_bind, if_pos hin] at hinfos
    cases hinfos
    cases hrest
    rfl
  subst hlist
  obtain ⟨info, hinfo, rfl⟩ := List.mem_map.mp hr
  obtain ⟨info', hinfo', rfl⟩ := List.mem_map.mp hr'
  obtain ⟨e, he, hmap⟩ := List.mem_filterMap.mp hinfo
  obtain ⟨e', he', hmap'⟩ := List.mem_filterMap.mp hinfo'
  obtain ⟨x, hx, rfl⟩ := Option.map_eq_some_iff.mp hmap
  obtain ⟨x', hx', rfl⟩ := Option.map_eq_some_iff.mp hmap'
  have hlookup := (Dict.mem_entries_iff _ _).mp he
  have hlookup' := (Dict.mem_entries_iff _ _).mp he'
  have hkey : e.1 = e'.1 := hid
  have hrelation : e.2 = e'.2 := by
    rw [hkey] at hlookup
    exact Option.some.inj (hlookup.symm.trans hlookup')
  have hservice : x = x' := by
    rw [hrelation] at hx
    exact Option.some.inj (hx.symm.trans hx')
  simp [hkey, hrelation, hservice]

/-- What is asked of the relations when the text is split in a name and digits. -/
theorem getRelationIdAndScope_split (k : TextKind) (name : List Char) (digits : List Char)
    (ident : String) (hident : ident.toList.splitOn ':' = [name, digits])
    (hdigits : k.isdigit digits = true) :
    getRelationIdAndScope t service k ident =
      match relations.find? fun r => isName k name r.relationName &&
          isName k ("relation-".toList ++ digits.leftpad 10 '0') r.internalRelationId with
      | some r => .ok (r.internalRelationId, r.relationScope)
      | none => .error .relationStateNotFound := by
  simp only [getRelationIdAndScope, hident, hdigits, h, if_true]

theorem ident_resolves (hids : ∀ r ∈ relations, ∃ n, r.internalRelationId = sequenceRelationId n)
    (r : ServiceRelationState) (hr : r ∈ relations) (hname : ':' ∉ r.relationName.toList)
    (k : TextKind) (hkind : k = .unicode ∨ ∀ c ∈ r.relationName.toList, c.toNat < 128) :
    ∃ ident, getRelationIdent r.relationName r.internalRelationId = some ident ∧
      getRelationIdAndScope t service k ident = .ok (r.internalRelationId, r.relationScope) := by
  obtain ⟨n, hn⟩ := hids r hr
  have hident := getRelationIdent_sequence r.relationName n
  rw [← hn] at hident
  refine ⟨_, hident, ?_⟩
  have hsplit : (String.ofList (r.relationName.toList ++ ':' :: Nat.toDigits 10 n)).toList.splitOn
      ':' = [r.relationName.toList, Nat.toDigits 10 n] := by
    rw [splitOn_eq_iff _ _ _ (by simp)]
    have hcolon : ':' ∉ Nat.toDigits 10 n := fun hin =>
      absurd (TextKind.toDigits_isDigit n ':' hin) (by decide)
    refine ⟨by simp, ?_⟩
    simp [hname, hcolon]
  rw [getRelationIdAndScope_split t service relations h k _ _ _ hsplit (k.isdigit_toDigits n)]
  have hfound : (isName k r.relationName.toList r.relationName &&
      isName k ("relation-".toList ++ (Nat.toDigits 10 n).leftpad 10 '0') r.internalRelationId) = true := by
    have hascii : ∀ c ∈ (sequenceRelationId n).toList, c.toNat < 128 := sequenceRelationId_ascii n
    rw [Bool.and_eq_true, isName_iff, isName_iff, hn]
    exact ⟨⟨rfl, hkind⟩, (sequenceRelationId_toList n).symm, Or.inr hascii⟩
  cases hfind : relations.find? fun r' => isName k r.relationName.toList r'.relationName &&
      isName k ("relation-".toList ++ (Nat.toDigits 10 n).leftpad 10 '0') r'.internalRelationId with
  | none =>
    have hnone := List.find?_eq_none.mp hfind r hr
    exact absurd hfound hnone
  | some r' =>
    have hr' := List.mem_of_find?_eq_some hfind
    have hmatch := List.find?_some hfind
    rw [Bool.and_eq_true, isName_iff, isName_iff] at hmatch
    have hsame : r = r' := by
      refine relationStates_unique t service relations h r r' hr hr' ?_
      rw [hn, ← String.toList_inj, sequenceRelationId_toList, hmatch.2.1]
    rw [hsame]

/-- What is found for a text is a relation that the text identifies. -/
theorem found_identifies (hids : ∀ r ∈ relations, ∃ n, r.internalRelationId = sequenceRelationId n)
    (k : TextKind) (ident : String) :
    (∃ r ∈ relations, Identifies k ident r ∧
        getRelationIdAndScope t service k ident = .ok (r.internalRelationId, r.relationScope)) ∨
      getRelationIdAndScope t service k ident = .error (.invalidRelationIdentity ident) ∨
      getRelationIdAndScope t service k ident = .error .relationStateNotFound := by
  cases hsplit : ident.toList.splitOn ':' with
  | nil => exact absurd hsplit (List.splitOn_ne_nil _ _)
  | cons name parts =>
    cases parts with
    | nil => exact Or.inr (Or.inl (by simp only [getRelationIdAndScope, hsplit]))
    | cons digits parts =>
      cases parts with
      | cons part parts => exact Or.inr (Or.inl (by simp only [getRelationIdAndScope, hsplit]))
      | nil =>
        cases hdigits : k.isdigit digits with
        | false =>
          refine Or.inr (Or.inl ?_)
          simp [getRelationIdAndScope, hsplit, hdigits]
        | true =>
          have hrun := getRelationIdAndScope_split t service relations h k name digits ident hsplit
            hdigits
          cases hfind : relations.find? fun r => isName k name r.relationName &&
              isName k ("relation-".toList ++ digits.leftpad 10 '0') r.internalRelationId with
          | none => exact Or.inr (Or.inr (by rw [hrun, hfind]))
          | some r =>
            have hr := List.mem_of_find?_eq_some hfind
            have hmatch := List.find?_some hfind
            rw [Bool.and_eq_true, isName_iff, isName_iff] at hmatch
            obtain ⟨n, hn⟩ := hids r hr
            have hpadded : digits.leftpad 10 '0' = (Nat.toDigits 10 n).leftpad 10 '0' := by
              have hid := hmatch.2.1
              rw [hn, sequenceRelationId_toList] at hid
              exact List.append_cancel_left hid
            have hne : digits ≠ [] := by
              rintro rfl
              cases hdigits
            obtain ⟨zeros, hzeros, hsame⟩ := leftpad_toDigits n digits hne hpadded
            have hident := ((splitOn_eq_iff _ _ _ (by simp)).mp hsplit).1
            refine Or.inl ⟨r, hr, ⟨hmatch.1.2, zeros, Nat.toDigits 10 n, hzeros, ?_, ?_⟩, ?_⟩
            · rw [hn, getRelationIdent_sequence]
            · rw [hident, ← hmatch.1.1, ← hsame]
              simp
            · rw [hrun, hfind]

end idents

/-- The relations of a service, with the ids that ZooKeeper's sequence numbers give: identifiers of
one name are of one relation, an identifier is resolved to its relation's id and scope, and what is
not the identifier of a relation, but for zeros in front of its number, is refused. -/
theorem relation_idents_resolve (t : InternalTopology) (service : ServiceState)
    (relations : List ServiceRelationState)
    (h : relationStatesForService service t = .ok relations t)
    (hids : ∀ r ∈ relations, ∃ n, r.internalRelationId = sequenceRelationId n) :
    (∀ name n n', getRelationIdent name (sequenceRelationId n) =
        getRelationIdent name (sequenceRelationId n') → n = n') ∧
      (∀ r ∈ relations, ':' ∉ r.relationName.toList →
        ∀ k, (k = .unicode ∨ ∀ c ∈ r.relationName.toList, c.toNat < 128) →
          ∃ ident, getRelationIdent r.relationName r.internalRelationId = some ident ∧
            getRelationIdAndScope t service k ident = .ok (r.internalRelationId, r.relationScope)) ∧
      (∀ k ident, (∀ r ∈ relations, ¬ Identifies k ident r) →
        getRelationIdAndScope t service k ident = .error (.invalidRelationIdentity ident) ∨
          getRelationIdAndScope t service k ident = .error .relationStateNotFound) := by
  refine ⟨getRelationIdent_injective, fun r hr hname k hkind => ?_, fun k ident hno => ?_⟩
  · exact ident_resolves t service relations h hids r hr hname k hkind
  · rcases found_identifies t service relations h hids k ident with ⟨r, hr, hident, -⟩ | hraised
    · exact absurd hident (hno r hr)
    · exact hraised

section examples

def wordpress : ServiceState := ⟨"service-0000000000", "wordpress"⟩

/-- A service with one relation. -/
def relatedTopology : InternalTopology :=
  { freshTopology with
    services := AList.singleton "service-0000000000" ⟨"wordpress", ∅⟩
    relations := AList.singleton (sequenceRelationId 42)
      ⟨"mysql", "global", AList.singleton "service-0000000000" ⟨"db", "client"⟩⟩ }

def relatedState : ServiceRelationState :=
  ⟨"service-0000000000", sequenceRelationId 42, "global", "client", "db"⟩

theorem relation_idents_resolve_db :
    ∃ ident, getRelationIdent "db" (sequenceRelationId 42) = some ident ∧
      getRelationIdAndScope relatedTopology wordpress .bytes ident =
        .ok (sequenceRelationId 42, "global") := by
  have hids : ∀ r ∈ [relatedState], ∃ n, r.internalRelationId = sequenceRelationId n := by
    intro r hr
    exact ⟨42, by rw [List.mem_singleton.mp hr]; rfl⟩
  exact (relation_idents_resolve relatedTopology wordpress [relatedState] rfl hids).2.1 relatedState
    List.mem_cons_self (by decide) .bytes (Or.inr (by simp [relatedState]))

end examples

end Juju.State
