import Juju.Charm.CharmPublisher
import Juju.Charm.CharmURL
import Juju.Lib.PrefixCode

namespace Juju.Charm
open Juju.Lib

/-- A `str`, each character of which is a byte. -/
@[ext] structure ByteString where
  text : String
  bytes : ∀ c ∈ text.toList, c.toNat < 256

/-- The node of a charm. -/
def charmPath (charmId : String) : String := "/charms/" ++ quote charmId

/-- The name of the file that a charm is cached in. -/
def cacheKey (url : CharmURL) : Except URLError String :=
  match url.revision with
  | none => fail url.toText "expected a revision"
  | some _ => .ok (quote (String.ofList url.toText ++ ".charm"))

/-- A letter, a digit, or one of the other characters of a quoted text. -/
def IsKeyChar (c : Char) : Prop := c.isAlphanum = true ∨ c = '.' ∨ c = '-' ∨ c = '_'

instance (c : Char) : Decidable (IsKeyChar c) :=
  inferInstanceAs (Decidable (c.isAlphanum = true ∨ c = '.' ∨ c = '-' ∨ c = '_'))

/-- What `hexdigest` returns: digits of base sixteen. -/
def IsHexDigest (text : String) : Prop := ∀ c ∈ text.toList, c ∈ "0123456789abcdef".toList

theorem digitChar_hex (n : Nat) (h : n < 16) : (Nat.digitChar n).isAlphanum = true := by
  have hall : ∀ n : Fin 16, (Nat.digitChar n).isAlphanum = true := by decide
  exact hall ⟨n, h⟩

theorem digitChar_injective (n m : Nat) (hn : n < 16) (hm : m < 16)
    (h : Nat.digitChar n = Nat.digitChar m) : n = m := by
  have hall : ∀ n m : Fin 16, Nat.digitChar n = Nat.digitChar m → n = m := by decide
  exact congrArg Fin.val (hall ⟨n, hn⟩ ⟨m, hm⟩ h)

theorem quoteChar_keyChar (c d : Char) (hc : c.toNat < 256) (h : d ∈ quoteChar c) :
    IsKeyChar d := by
  unfold quoteChar at h
  split at h
  · rename_i hsafe
    rw [List.mem_singleton.mp h]
    unfold IsKeyChar
    tauto
  · simp only [List.mem_cons, List.not_mem_nil, or_false] at h
    rcases h with rfl | rfl | rfl | rfl
    · decide
    · exact Or.inl (digitChar_hex _ (by omega))
    · exact Or.inl (digitChar_hex _ (by omega))
    · decide

/-- The characters of a text are told apart in what they are quoted to. -/
theorem quoteChar_prefixCode : IsPrefixCode (fun c : Char => c.toNat < 256) quoteChar where
  nonempty c _ := by
    unfold quoteChar
    split <;> simp
  apart a b ha hb x y h := by
    unfold quoteChar at h
    split at h
    · rename_i hsafe
      split at h
      · exact (List.cons.inj h).1
      · have hunder : a = '_' := (List.cons.inj h).1
        subst hunder
        exact absurd hsafe (by decide)
    · split at h
      · rename_i hsafe
        have hunder : '_' = b := (List.cons.inj h).1
        subst hunder
        exact absurd hsafe (by decide)
      · simp only [List.cons_append, List.cons.injEq, true_and] at h
        have hhigh := digitChar_injective _ _ (by omega) (by omega) h.1
        have hlow := digitChar_injective _ _ (by omega) (by omega) h.2.1
        exact Char.toNat_inj.mp (by omega)

/-- Texts that are quoted alike are the same. -/
theorem quote_injective (a b : String) (ha : ∀ c ∈ a.toList, c.toNat < 256)
    (hb : ∀ c ∈ b.toList, c.toNat < 256) (h : quote a = quote b) : a = b := by
  have hlists : a.toList.flatMap quoteChar = b.toList.flatMap quoteChar := by
    simpa [quote] using congrArg String.toList h
  exact String.toList_injective (quoteChar_prefixCode.flatMap_injective _ _ ha hb hlists)

theorem hexDigest_char (c : Char) (h : c ∈ "0123456789abcdef".toList) :
    c.toNat < 256 ∧ c ≠ ':' := by
  have hall : "0123456789abcdef".toList.all (fun c => c.toNat < 256 && c ≠ ':') = true := by decide
  simpa using List.all_eq_true.mp hall c h

/-- The digest has no colon, so the identifier ends at the last one. -/
theorem charmStorePath_injective {D : Type} (a b : ByteString) (bundle bundle' : Bundle D)
    (hbundle : IsHexDigest bundle.sha256) (hbundle' : IsHexDigest bundle'.sha256)
    (h : charmStorePath a.text bundle = charmStorePath b.text bundle') : a = b := by
  have hbytes (id : ByteString) (sha256 : String) (hsha : IsHexDigest sha256) :
      ∀ c ∈ (id.text ++ ":" ++ sha256).toList, c.toNat < 256 := by
    intro c hc
    simp only [String.toList_append, List.mem_append, List.mem_singleton,
      show ":".toList = [':'] from rfl] at hc
    rcases hc with (hc | rfl) | hc
    · exact id.bytes c hc
    · decide
    · exact (hexDigest_char c (hsha c hc)).1
  have htext := quote_injective _ _ (hbytes a _ hbundle) (hbytes b _ hbundle') h
  have hlast (id : ByteString) (sha256 : String) (hsha : IsHexDigest sha256) :
      cutLast ':' (id.text ++ ":" ++ sha256).toList = some (id.text.toList, sha256.toList) := by
    rw [cutLast_eq_some]
    exact ⟨by simp, fun hin => (hexDigest_char ':' (hsha ':' hin)).2 rfl⟩
  have hcut := hlast a _ hbundle
  rw [htext, hlast b _ hbundle', Option.some.injEq, Prod.mk.injEq] at hcut
  exact ByteString.ext (String.toList_injective hcut.1.symm)

theorem charmPath_injective (a b : ByteString) (h : charmPath a.text = charmPath b.text) :
    a = b := by
  have hquote : quote a.text = quote b.text := by
    apply String.toList_injective
    have hlists := congrArg String.toList h
    simpa [charmPath] using hlists
  exact ByteString.ext (quote_injective _ _ a.bytes b.bytes hquote)

theorem cacheKey_injective (url url' : CharmURL) (key : String)
    (hbytes : ∀ c ∈ url.toText, c.toNat < 256) (hbytes' : ∀ c ∈ url'.toText, c.toNat < 256)
    (h : cacheKey url = .ok key) (h' : cacheKey url' = .ok key) : url.toText = url'.toText := by
  have hcharm (other : CharmURL) (hother : ∀ c ∈ other.toText, c.toNat < 256) :
      ∀ c ∈ (String.ofList other.toText ++ ".charm").toList, c.toNat < 256 := by
    have hsuffix : ".charm".toList.all (·.toNat < 256) = true := by decide
    intro c hc
    simp only [String.toList_append, String.toList_ofList, List.mem_append] at hc
    exact hc.elim (hother c) fun hin => by simpa using List.all_eq_true.mp hsuffix c hin
  have hkey (other : CharmURL) (hother : cacheKey other = .ok key) :
      quote (String.ofList other.toText ++ ".charm") = key := by
    unfold cacheKey at hother
    split at hother
    · simp [fail] at hother
    · exact Except.ok.inj hother
  have htext := quote_injective _ _ (hcharm url hbytes) (hcharm url' hbytes')
    ((hkey url h).trans (hkey url' h').symm)
  have hlists := congrArg String.toList htext
  simpa using hlists

/-- Quoting keeps texts apart and leaves only characters that are safe in a path, so that charms
never share a node, a storage key or a cached file. -/
theorem quoted_keys (D : Type) :
    (∀ a b : ByteString, quote a.text = quote b.text → a = b) ∧
      (∀ a : ByteString, ∀ c ∈ (quote a.text).toList, IsKeyChar c ∧ c ≠ '/') ∧
      (∀ a b : ByteString, charmPath a.text = charmPath b.text → a = b) ∧
      (∀ (a b : ByteString) (bundle bundle' : Bundle D), IsHexDigest bundle.sha256 →
        IsHexDigest bundle'.sha256 →
        charmStorePath a.text bundle = charmStorePath b.text bundle' → a = b) ∧
      ∀ (url url' : CharmURL) (key : String), (∀ c ∈ url.toText, c.toNat < 256) →
        (∀ c ∈ url'.toText, c.toNat < 256) → cacheKey url = .ok key → cacheKey url' = .ok key →
        url.toText = url'.toText := by
  refine ⟨fun a b h => ?_, fun a c hc => ?_, charmPath_injective, charmStorePath_injective,
    cacheKey_injective⟩
  · exact ByteString.ext (quote_injective _ _ a.bytes b.bytes h)
  · simp only [quote, String.toList_ofList, List.mem_flatMap] at hc
    obtain ⟨d, hd, hcd⟩ := hc
    have hkey := quoteChar_keyChar d c (a.bytes d hd) hcd
    refine ⟨hkey, ?_⟩
    rintro rfl
    exact absurd hkey (by decide)

end Juju.Charm
