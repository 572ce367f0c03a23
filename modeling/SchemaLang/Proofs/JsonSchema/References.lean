import SchemaLang.JsonSchema.Document
import SchemaLang.JsonSchema.SchemaDocument
import SchemaLang.Proofs.Declaration.Proper
import SchemaLang.Proofs.Distinct
import SchemaLang.Proofs.Json.Members
import SchemaLang.Proofs.Outcome

/-!
# References inside a document

Definitions have plain names, so the pointer to one is its place in the document as it is
written: nothing in it is escaped, and reading it as a reference gives back the two steps
that lead to the definition.

The search that starts from the references of the root follows each of them once. As there
are fewer references than the document has parts, it never runs out of rounds: either some
reference on the way cannot be read, or the result is closed under following references.
-/

namespace SchemaLang.JsonSchema

open Outcome List

/-! ## The pointers of definitions -/

/-- A character that stands for itself in references and pointers. -/
def PlainChar (c : Char) : Prop := isReferenceCharacter c = true ∧ c ≠ '%'

theorem plainChar_of_isNameChar {c : Char} (inName : IsNameChar c) : PlainChar c := by
  rcases inName with alphanumeric | rfl | rfl | rfl
  · refine ⟨by rw [isReferenceCharacter, alphanumeric, Bool.true_or], ?_⟩
    rintro rfl
    revert alphanumeric
    decide
  · exact ⟨by decide, by decide⟩
  · exact ⟨by decide, by decide⟩
  · exact ⟨by decide, by decide⟩

variable {chars : List Char}

/-- Plain characters may follow the number sign of a reference. -/
theorem isFragment_of_plain (plain : ∀ c ∈ chars, PlainChar c) : isFragment chars = true := by
  induction chars with
  | nil => rfl
  | cons c rest ih =>
    have first := plain c mem_cons_self
    rw [isFragment, first.1, ih fun other member => plain other (mem_cons_of_mem c member)]
    · rfl
    · intro high low others isPercent
      exact absurd isPercent first.2

/-- The bytes of plain characters are those of the text. -/
theorem percentBytes_of_plain (plain : ∀ c ∈ chars, PlainChar c) :
    percentBytes chars = chars.flatMap String.utf8EncodeChar := by
  induction chars with
  | nil => rfl
  | cons c rest ih =>
    have first := plain c mem_cons_self
    rw [percentBytes, flatMap_cons, ih fun other member => plain other (mem_cons_of_mem c member)]
    intro high low others isPercent
    exact absurd isPercent first.2

/-- The bytes of plain characters read back as their text. -/
theorem fromUTF8?_percentBytes (plain : ∀ c ∈ chars, PlainChar c) :
    String.fromUTF8? ⟨(percentBytes chars).toArray⟩ = some (String.ofList chars) := by
  have bytes :
      (⟨(percentBytes chars).toArray⟩ : ByteArray) = (String.ofList chars).toByteArray := by
    rw [percentBytes_of_plain plain, String.toByteArray_ofList, utf8Encode]
    exact ByteArray.ext data_toByteArray.symm
  rw [bytes, String.fromUTF8?, dif_pos (String.ofList chars).isValidUTF8]
  rfl

/-- The characters of a pointer to a definition, after its number sign. -/
def definitionPath (name : String) : List Char := "/definitions/".toList ++ name.toList

theorem definitionPath_plain {name : String} (plain : PlainName name) :
    ∀ c ∈ definitionPath name, PlainChar c := by
  have fixed : "/definitions/".toList.all (fun c => isReferenceCharacter c && c != '%') = true := by
    decide
  intro c member
  rcases mem_append.mp member with before | inName
  · simpa [PlainChar] using all_eq_true.mp fixed c before
  · exact plainChar_of_isNameChar (plain c inName)

theorem definitionPointer_toList (name : String) :
    ("#/definitions/" ++ name).toList = '#' :: definitionPath name := by
  rw [String.toList_append]
  rfl

/-- A plain name stands for itself in a pointer. -/
theorem unescape_of_plain (plain : ∀ c ∈ chars, c ≠ '~') : Pointer.unescape chars = chars := by
  induction chars with
  | nil => rfl
  | cons c rest ih =>
    have first := plain c mem_cons_self
    rw [Pointer.unescape, ih fun other member => plain other (mem_cons_of_mem c member)]
    · intro others isTilde
      exact absurd isTilde first
    · intro others isTilde
      exact absurd isTilde first

/-- No character of a name has a meaning of its own in pointers. -/
theorem ne_of_isNameChar {c : Char} (inName : IsNameChar c) : c ≠ '~' ∧ c ≠ '/' := by
  rcases inName with alphanumeric | rfl | rfl | rfl
  · constructor
    · rintro rfl
      revert alphanumeric
      decide
    · rintro rfl
      revert alphanumeric
      decide
  · decide
  · decide
  · decide

/-- The path of a definition is the pointer with the two steps to it. -/
theorem pointer_ofText?_definitionPath {name : String} (plain : PlainName name) :
    Pointer.ofText? (String.ofList (definitionPath name)) = some ["definitions", name] := by
  have path : definitionPath name = '/' :: ("definitions".toList ++ '/' :: name.toList) := rfl
  have noSlash : '/' ∉ name.toList := fun member => (ne_of_isNameChar (plain _ member)).2 rfl
  rw [Pointer.ofText?, String.toList_ofList, path]
  simp only
  rw [splitOn_append_cons_self_of_not_mem (by decide), splitOn_eq_singleton noSlash,
    map_cons, map_singleton,
    unescape_of_plain fun c member => (ne_of_isNameChar (plain c member)).1, String.ofList_toList]
  rfl

variable {reg : Registry} {defn : Definition}

/-- The pointer to a definition is written as a reference. -/
theorem isReference_pointer {id : Nat} (plain : PlainName defn.name) :
    isReference (pointer reg id defn) = true := by
  unfold pointer
  split
  · decide
  · rw [isReference, definitionPointer_toList]
    exact isFragment_of_plain (definitionPath_plain plain)

/-- A reference to a definition leads to the place of that definition. -/
theorem referencePointer?_pointer {id : Nat} (plain : PlainName defn.name) :
    referencePointer? (pointer reg id defn) =
      some (if reg.entry? = some id then [] else ["definitions", defn.name]) := by
  unfold pointer
  split
  · decide
  · have path : definitionPath defn.name =
        '/' :: ("definitions/".toList ++ defn.name.toList) := rfl
    have read := fromUTF8?_percentBytes (definitionPath_plain plain)
    have steps := pointer_ofText?_definitionPath plain
    rw [referencePointer?, definitionPointer_toList]
    rw [path] at read steps ⊢
    show (String.fromUTF8? _).bind Pointer.ofText? = _
    rw [read]
    exact steps

/-! ## Following references -/

variable {draft : Draft} {document : Json}

/-- What the search has between two rounds: the schemas of the references that were met, each
met once, and the references that come next. All of them are among given places, and every
reference of a schema that was met is met or comes next. -/
structure Frontier (draft : Draft) (document : Json) (places texts : List String)
    (targets : List (String × Schema)) : Prop where
  resolved : ∀ target ∈ targets, resolveReference draft document target.1 = .ok target.2
  distinct : (targets.map Prod.fst).Nodup
  next : ∀ text ∈ texts, text ∈ places
  met : ∀ text ∈ targets.map Prod.fst, text ∈ places
  follows : ∀ target ∈ targets, ∀ text ∈ target.2.references,
    text ∈ targets.map Prod.fst ∨ text ∈ texts

/-- No reference outside of the places comes up where the schemas at the places have none. -/
def Within (draft : Draft) (document : Json) (places : List String) : Prop :=
  ∀ text ∈ places, ∀ schema, resolveReference draft document text = .ok schema →
    ∀ other ∈ schema.references, other ∈ places

/-- The references of a round that were not met before. -/
def freshTexts (texts : List String) (targets : List (String × Schema)) : List String :=
  texts.eraseDups.filter fun text => (targets.lookup text).isNone

variable {texts : List String} {targets : List (String × Schema)}

theorem mem_freshTexts {text : String} :
    text ∈ freshTexts texts targets ↔ text ∈ texts ∧ text ∉ targets.map Prod.fst := by
  rw [freshTexts, mem_filter, mem_eraseDups, Option.isNone_iff_eq_none, Json.lookup_eq_none_iff]

variable {found : List (String × Schema)}

/-- What a round finds. -/
theorem found_of_mapM
    (done : (texts.mapM fun text => do return (text, ← resolveReference draft document text)) = .ok
      found) :
    found.map Prod.fst = texts ∧
      ∀ target ∈ found, resolveReference draft document target.1 = .ok target.2 := by
  have pairwise := mapM_ok_iff.mp done
  have resolves : ∀ text target,
      (do return (text, ← resolveReference draft document text) : Except Fault (String × Schema)) =
        .ok target → target.1 = text ∧ resolveReference draft document target.1 = .ok target.2 := by
    intro text target same
    obtain ⟨schema, read, made⟩ := bind_ok_iff.mp same
    cases made
    exact ⟨rfl, read⟩
  constructor
  · have names : texts.map id = found.map Prod.fst :=
      map_eq_of_forall₂ pairwise fun text target same =>
        (resolves text target same).1.symm
    rw [← names, map_id]
  · intro target member
    obtain ⟨text, _, same⟩ := exists_left pairwise member
    exact (resolves text target same).2

/-- A round leads from one frontier to the next. -/
theorem Frontier.round {places : List String}
    (frontier : Frontier draft document places texts targets)
    (within : Within draft document places) (names : found.map Prod.fst = freshTexts texts targets)
    (resolved : ∀ target ∈ found, resolveReference draft document target.1 = .ok target.2) :
    Frontier draft document places (found.flatMap fun target => target.2.references)
      (targets ++ found) := by
  have located : ∀ text ∈ found.map Prod.fst, text ∈ places := by
    intro text member
    rw [names, mem_freshTexts] at member
    exact frontier.next text member.1
  constructor
  case resolved => exact forall_mem_append.mpr ⟨frontier.resolved, resolved⟩
  case distinct =>
    rw [map_append, nodup_append]
    refine ⟨frontier.distinct, ?_, ?_⟩
    · rw [names]
      exact (Distinct.nodup_eraseDups texts).filter _
    · rintro text old other new rfl
      rw [names, mem_freshTexts] at new
      exact new.2 old
  case next =>
    intro text member
    obtain ⟨target, isFound, refers⟩ := mem_flatMap.mp member
    exact within target.1 (located _ (mem_map_of_mem isFound)) target.2
      (resolved target isFound) text refers
  case met =>
    rw [map_append]
    exact forall_mem_append.mpr ⟨frontier.met, located⟩
  case follows =>
    intro target member text refers
    rw [map_append, mem_append]
    rcases mem_append.mp member with old | new
    · rcases frontier.follows target old text refers with isMet | comesNext
      · exact .inl (.inl isMet)
      · by_cases isMet : text ∈ targets.map Prod.fst
        · exact .inl (.inl isMet)
        · rw [names]
          exact .inl (.inr (mem_freshTexts.mpr ⟨comesNext, isMet⟩))
    · exact .inr (mem_flatMap.mpr ⟨target, new, refers⟩)

/-- The search ends with nothing left to follow, and has met all that it started from. A
round that meets nothing new is the last one, so rounds and references met together outgrow
the places. -/
theorem followReferences_closed {places : List String} {final : List (String × Schema)}
    {rounds : Nat} (frontier : Frontier draft document places texts targets)
    (within : Within draft document places)
    (enough : texts ≠ [] → places.length < rounds + targets.length)
    (done : followReferences draft document rounds texts targets = .ok final) :
    Frontier draft document places [] final ∧
      ∀ text, text ∈ texts ∨ text ∈ targets.map Prod.fst → text ∈ final.map Prod.fst := by
  induction rounds generalizing texts targets with
  | zero =>
    cases texts with
    | nil =>
      cases done
      exact ⟨frontier, by simp⟩
    | cons text texts =>
      -- No rounds are left, so more references were met than there are places.
      have bounded := frontier.distinct.length_le_of_subset frontier.met
      have exceeds := enough (cons_ne_nil text texts)
      rw [length_map] at bounded
      omega
  | succ rounds ih =>
    cases texts with
    | nil =>
      cases done
      exact ⟨frontier, by simp⟩
    | cons text texts =>
      obtain ⟨found, mapped, rest⟩ := bind_ok_iff.mp done
      obtain ⟨names, resolved⟩ := found_of_mapM mapped
      have grows : (found.flatMap fun target => target.2.references) ≠ [] →
          places.length < rounds + (targets ++ found).length := by
        intro someLeft
        have exceeds := enough (cons_ne_nil text texts)
        have nonempty : found ≠ [] := by
          rintro rfl
          exact someLeft rfl
        have positive := length_pos_of_ne_nil nonempty
        rw [length_append]
        omega
      obtain ⟨closed, reached⟩ := ih (frontier.round within names resolved) grows rest
      refine ⟨closed, fun other started => reached other (.inr ?_)⟩
      rw [map_append, mem_append]
      by_cases isMet : other ∈ targets.map Prod.fst
      · exact .inl isMet
      · refine .inr ?_
        rw [names]
        exact mem_freshTexts.mpr ⟨started.resolve_right isMet, isMet⟩

/-- The search succeeds where all references that it can meet lead to schemas. -/
theorem followReferences_ok (good : String → Prop)
    (resolves : ∀ text, good text → ∃ schema, resolveReference draft document text = .ok schema ∧
      ∀ other ∈ schema.references, good other) {rounds : Nat}
    (started : ∀ text ∈ texts, good text) :
    ∃ final, followReferences draft document rounds texts targets = .ok final := by
  induction rounds generalizing texts targets with
  | zero => cases texts <;> exact ⟨targets, rfl⟩
  | succ rounds ih =>
    cases texts with
    | nil => exact ⟨targets, rfl⟩
    | cons text texts =>
      obtain ⟨found, mapped⟩ : ∃ found, ((freshTexts (text :: texts) targets).mapM fun text => do
          return (text, ← resolveReference draft document text)) = .ok found := by
        refine mapM_ok_of_forall fun other member => ?_
        obtain ⟨schema, read, _⟩ := resolves other (started other (mem_freshTexts.mp member).1)
        exact ⟨(other, schema), bind_ok_iff.mpr ⟨schema, read, rfl⟩⟩
      obtain ⟨names, resolved⟩ := found_of_mapM mapped
      have good : ∀ other ∈ found.flatMap fun target => target.2.references, good other := by
        intro other member
        obtain ⟨target, isFound, refers⟩ := mem_flatMap.mp member
        have isFresh : target.1 ∈ freshTexts (text :: texts) targets := by
          rw [← names]
          exact mem_map_of_mem isFound
        obtain ⟨schema, read, others⟩ := resolves target.1 (started _ (mem_freshTexts.mp isFresh).1)
        rw [resolved target isFound] at read
        cases read
        exact others other refers
      obtain ⟨final, done⟩ := ih good
      exact ⟨final, bind_ok_iff.mpr ⟨found, mapped, done⟩⟩

end SchemaLang.JsonSchema
