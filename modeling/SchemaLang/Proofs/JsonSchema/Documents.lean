import SchemaLang.Proofs.JsonSchema.Definitions

/-!
# Documents of registries

The document of a registry is the schema of its entry, with the schemas of all other
definitions beside it under their names. A reference leads to the schema of the definition
that it means. So the document can be used exactly when the patterns of the registry are
spelled as schemas ask for and those that the entry uses can be read; a document that is used
holds the schemas of all definitions that the entry uses.
-/

namespace SchemaLang.JsonSchema

open Outcome List Json

open Relation

/-- The members that are written for a definition. -/
def definitionMembers (registry : Registry) (definition : Definition) : Members :=
  (ofDefinition registry definition).toOption.getD []

variable {definition defn : Definition}

theorem definitionMembers_of_ok {reg : Registry} {members : Members}
    (emitted : ofDefinition reg defn = .ok members) :
    definitionMembers reg defn = members := by
  rw [definitionMembers, emitted]
  rfl

/-- The definitions of a document: all but the entry. -/
def otherMembers (registry : Registry) : Members :=
  (registry.numbered.filter fun (id, _) => registry.entry? ≠ some id).map fun (_, definition) =>
    (definition.name, .object (definitionMembers registry definition))

/-- The members of a document. -/
def documentMembers (registry : Registry) (entry : Definition) : Members :=
  ("$schema", .string dialect) :: ("title", .string entry.name) ::
    (definitionMembers registry entry ++ [("definitions", .object (otherMembers registry))])

/-- A document with the address of the dialect is in the seventh draft. -/
theorem ofDocument_dialect (members : Members) :
    Draft.ofDocument (.object (("$schema", .string dialect) :: members)) = .ok .draft7 := by
  rw [Draft.ofDocument, Json.members, lookup_cons_self]
  decide +kernel

/-- A registry that has been written with its entry, which has a number and a definition. -/
structure Entered (registry : Registry) (id : Nat) (entry : Definition) : Prop where
  proper : registry.Proper
  isEntry : registry.entry? = some id
  found : registry.get? id = some entry
  emitted : ∀ definition ∈ registry.definitions,
    ofDefinition registry definition = .ok (definitionMembers registry definition)

variable {reg : Registry} {id : Nat} {entry : Definition}

/-- The names of the other definitions are different. -/
theorem otherMembers_distinct (proper : reg.Proper) : ((otherMembers reg).map Prod.fst).Nodup := by
  have names : (reg.numbered.map fun numbered => numbered.2.name).Nodup := by
    have all := proper.distinct
    rw [← Registry.numbered_definitions, List.map_map] at all
    exact all
  rw [otherMembers, List.map_map]
  exact names.sublist (filter_sublist.map _)

theorem mem_otherMembers {member : String × Json} :
    member ∈ otherMembers reg ↔ ∃ other defn, reg.get? other = some defn ∧
      reg.entry? ≠ some other ∧
      member = (defn.name, .object (definitionMembers reg defn)) := by
  simp only [otherMembers, mem_map, mem_filter, decide_eq_true_eq, Prod.exists,
    Registry.mem_numbered]
  constructor
  · rintro ⟨other, defn, ⟨found, differs⟩, rfl⟩
    exact ⟨other, defn, found, differs, rfl⟩
  · rintro ⟨other, defn, found, differs, rfl⟩
    exact ⟨other, defn, ⟨found, differs⟩, rfl⟩

variable {other : Nat}

/-- A definition other than the entry is found under its name, whatever else the document
holds. -/
theorem at?_definition (proper : reg.Proper) {members : Members}
    (outer : members.lookup "definitions" = some (.object (otherMembers reg)))
    (found : reg.get? other = some defn) (differs : reg.entry? ≠ some other) :
    (object members).at? ["definitions", defn.name] =
      some (.object (definitionMembers reg defn)) := by
  have inner : (otherMembers reg).lookup defn.name =
      some (.object (definitionMembers reg defn)) :=
    lookup_of_mem (otherMembers_distinct proper)
      (mem_otherMembers.mpr ⟨other, defn, found, differs, rfl⟩)
  simp only [at?, step?, outer, inner]

/-- The other definitions are written one by one. -/
theorem otherMembers_of_mapM {defns : Members}
    (mapped : ((reg.numbered.filter fun (id, _) => reg.entry? ≠ some id).mapM
      fun (_, defn) => do
        return (defn.name, object (← ofDefinition reg defn))) =
      .ok defns) :
    defns = otherMembers reg ∧
      ∀ place defn, reg.get? place = some defn → reg.entry? ≠ some place →
        ofDefinition reg defn = .ok (definitionMembers reg defn) := by
  have pairwise := mapM_ok_iff.mp mapped
  constructor
  · rw [otherMembers, ← map_id defns]
    refine (map_eq_of_forall₂ pairwise ?_).symm
    rintro ⟨place, defn⟩ written done
    obtain ⟨own, ownOk, made⟩ := bind_ok_iff.mp done
    cases made
    show (defn.name, object (definitionMembers reg defn)) = _
    rw [definitionMembers_of_ok ownOk]
    rfl
  · intro place defn placed isOther
    have numbered : (place, defn) ∈
        reg.numbered.filter fun (id, _) => reg.entry? ≠ some id :=
      mem_filter.mpr ⟨Registry.mem_numbered.mpr placed, by simpa using isOther⟩
    obtain ⟨written, _, done⟩ := exists_right pairwise numbered
    obtain ⟨own, ownOk, _⟩ := bind_ok_iff.mp done
    rw [definitionMembers_of_ok ownOk]
    exact ownOk

/-- A document is written from the members of the definitions. -/
theorem ofRegistry_ok (proper : reg.Proper) (isEntry : reg.entry? = some id)
    {document : Json} (emitted : ofRegistry reg = .ok document) :
    ∃ entry, Entered reg id entry ∧ document = .object (documentMembers reg entry) := by
  obtain ⟨root, rootOk, rest⟩ := bind_ok_iff.mp emitted
  obtain ⟨defns, mapped, same⟩ := bind_ok_iff.mp rest
  obtain ⟨others, othersOk⟩ := otherMembers_of_mapM mapped
  unfold rootMembers at rootOk
  rw [isEntry] at rootOk
  dsimp only at rootOk
  split at rootOk
  · cases rootOk
  · rename_i entry found
    obtain ⟨members, entryOk, made⟩ := bind_ok_iff.mp rootOk
    cases made
    have entryMembers := definitionMembers_of_ok entryOk
    refine ⟨entry, ⟨proper, isEntry, found, fun defn member => ?_⟩, ?_⟩
    · obtain ⟨place, placed⟩ := getElem?_of_mem member
      by_cases isOther : reg.entry? = some place
      · rw [isEntry] at isOther
        cases isOther
        obtain rfl : entry = defn := Option.some.inj (found.symm.trans placed)
        rw [entryMembers]
        exact entryOk
      · exact othersOk place defn placed isOther
    · have distinct : (defns.map Prod.fst).Nodup := others ▸ otherMembers_distinct proper
      cases same
      rw [ofMembers_of_nodup distinct, others, documentMembers, entryMembers]
      rfl

variable {schema : Schema}

namespace Entered

variable (entered : Entered reg id entry)
include entered

theorem entry_mem : entry ∈ reg.definitions :=
  mem_of_getElem? entered.found

/-- What is written for a definition of the document. -/
theorem written (member : defn ∈ reg.definitions) :
    DefinitionWritten reg defn (definitionMembers reg defn) :=
  ofDefinition_written entered.proper member (entered.emitted defn member)

/-- A definition other than the entry stands under its name. -/
theorem other_mem (found : reg.get? other = some defn) (differs : other ≠ id) :
    (defn.name, object (definitionMembers reg defn)) ∈
      otherMembers reg := by
  refine mem_otherMembers.mpr ⟨other, defn, found, ?_, rfl⟩
  rw [entered.isEntry]
  exact fun same => differs (Option.some.inj same).symm

/-- Every definition is the entry or stands under its name. -/
theorem covers (member : defn ∈ reg.definitions) :
    defn = entry ∨
      (defn.name, object (definitionMembers reg defn)) ∈
        otherMembers reg := by
  obtain ⟨place, placed⟩ := getElem?_of_mem member
  by_cases same : place = id
  · subst same
    exact .inl (Option.some.inj (placed.symm.trans entered.found))
  · exact .inr (entered.other_mem placed same)

/-- A document has the shape of a schema unless a pattern has another spelling. -/
theorem shaped :
    checkShape .draft7 (.object (documentMembers reg entry)) = .ok () ↔
      ∀ defn ∈ reg.definitions, ∀ text, Registry.Stated defn text →
        ∃ chars, Pattern.schemaText text.toList = .ok chars := by
  have defns : checkMember .draft7 "definitions" (.object (otherMembers reg)) =
      checkNamed .draft7 (otherMembers reg) := rfl
  rw [checkShape, checkMembers_ok_iff, documentMembers, forall_mem_cons, forall_mem_cons,
    forall_mem_append, forall_mem_singleton, ← checkMembers_ok_iff, defns, checkNamed_ok_iff,
    (entered.written entered.entry_mem).shaped]
  constructor
  · rintro ⟨_, _, ofEntry, ofOthers⟩ defn member
    rcases entered.covers member with rfl | stands
    · exact ofEntry
    · exact (entered.written member).shaped.mp (ofOthers _ stands)
  · intro spelled
    refine ⟨rfl, rfl, spelled entry entered.entry_mem, fun member stands => ?_⟩
    obtain ⟨other, defn, found, _, rfl⟩ := mem_otherMembers.mp stands
    have isDefinition := mem_of_getElem? found
    exact (entered.written isDefinition).shaped.mpr (spelled defn isDefinition)

/-- The members of a definition read as its conditions. -/
theorem definition_reads (member : defn ∈ reg.definitions) :
    Schema.ofJson .draft7 (.object (definitionMembers reg defn)) = .ok schema ↔
      ∃ keywords, keywordsOf .draft7 (definitionMembers reg defn) = .ok keywords ∧
        schema = .keywords keywords := by
  rw [Schema.ofJson, Schema.ofMembers, if_pos referenceAlone_draft7, (entered.written member).bare]
  exact map_ok_iff.trans (exists_congr fun _ => and_congr_right fun _ => eq_comm)

/-- The document reads as the conditions of its entry. -/
theorem root_reads :
    Schema.ofJson .draft7 (.object (documentMembers reg entry)) = .ok schema ↔
      ∃ keywords, keywordsOf .draft7 (definitionMembers reg entry) = .ok keywords ∧
        schema = .keywords keywords := by
  have bare : (documentMembers reg entry).lookup "$ref" = none := by
    have inside := (entered.written entered.entry_mem).bare
    rw [lookup_eq_none_iff] at inside ⊢
    simpa [documentMembers] using inside
  have announced : keywordOf .draft7 "$schema" (.string dialect) = .ok [] := rfl
  have titled : keywordOf .draft7 "title" (.string entry.name) = .ok [] := rfl
  have defns : keywordsOf .draft7 [("definitions", .object (otherMembers reg))] = .ok [] := rfl
  rw [Schema.ofJson, Schema.ofMembers, if_pos referenceAlone_draft7, bare]
  simp only [map_ok_iff, documentMembers, keywordsOf_cons_ok_iff,
    keywordsOf_append_ok_iff, announced, titled, defns, Except.ok.injEq]
  constructor
  · rintro ⟨_, ⟨_, _, rfl, ⟨_, _, rfl, ⟨keywords, _, read, rfl, rfl⟩, rfl⟩, rfl⟩, rfl⟩
    exact ⟨keywords, read, by simp⟩
  · rintro ⟨keywords, read, rfl⟩
    exact ⟨keywords, ⟨_, _, rfl, ⟨_, _, rfl, ⟨keywords, _, read, rfl, rfl⟩, rfl⟩, by simp⟩, rfl⟩

/-- The definitions stand under their keyword. -/
theorem lookup_definitions :
    (documentMembers reg entry).lookup "definitions" = some (.object (otherMembers reg)) := by
  have inside := (entered.written entered.entry_mem).apart
  simp [documentMembers, lookup_append, lookup_cons, inside]

/-- A reference to a definition leads to its conditions. -/
theorem resolves (found : reg.get? other = some defn) :
    resolveReference .draft7 (.object (documentMembers reg entry)) (referenceText reg other) =
        .ok schema ↔
      ∃ keywords, keywordsOf .draft7 (definitionMembers reg defn) = .ok keywords ∧
        schema = .keywords keywords := by
  have member := mem_of_getElem? found
  rw [resolveReference, referenceText_of_get? found,
    referencePointer?_pointer (entered.proper.plain defn member), entered.isEntry]
  by_cases same : other = id
  · subst same
    obtain rfl : entry = defn := Option.some.inj (entered.found.symm.trans found)
    rw [if_pos rfl]
    exact entered.root_reads
  · have differs : reg.entry? ≠ some other := by
      rw [entered.isEntry]
      exact fun equal => same (Option.some.inj equal).symm
    rw [if_neg fun equal => same (Option.some.inj equal).symm, Option.bind_some,
      at?_definition entered.proper entered.lookup_definitions found differs]
    exact entered.definition_reads member

/-! ## Sizes -/

omit entered in
theorem document_size (reg : Registry) (entry : Definition) :
    (object (documentMembers reg entry)).size = membersSize (definitionMembers reg entry) +
        membersSize (otherMembers reg) + 4 := by
  simp only [documentMembers, size, membersSize, membersSize_append]
  omega

/-- A document has more parts than there are definitions. -/
theorem size_lt : reg.size < (object (documentMembers reg entry)).size := by
  -- Names are counted rather than numbers: they are different, and each has its place.
  have named : reg.definitions.map Definition.name ⊆
      entry.name :: (otherMembers reg).map Prod.fst := by
    intro name member
    obtain ⟨defn, isDefinition, rfl⟩ := mem_map.mp member
    rcases entered.covers isDefinition with rfl | stands
    · exact mem_cons_self
    · exact mem_cons_of_mem _ (mem_map_of_mem stands)
  have bounded := entered.proper.distinct.length_le_of_subset named
  have others := length_le_membersSize (otherMembers reg)
  rw [length_map, length_cons, length_map] at bounded
  rw [document_size, Registry.size]
  omega

/-- A document has at least as many parts as checking a field takes steps. -/
theorem height_le (member : defn ∈ reg.definitions) {field : DefinedField}
    (isField : field ∈ defn.fields) :
    field.type.required.height ≤ (object (documentMembers reg entry)).size := by
  have bounded := (entered.written member).height field isField
  rw [document_size]
  rcases entered.covers member with rfl | stands
  · omega
  · have inside := size_le_membersSize stands
    simp only [size] at inside
    omega

end Entered

/-! ## Using a document -/

/-- A document that holds the schemas of all definitions that the entry uses. -/
structure Faithful (registry : Registry) (id : Nat) (document : SchemaDocument) : Prop where
  root : ∃ definition keywords, registry.get? id = some definition ∧
    document.root = .keywords keywords ∧ DefinitionSchema registry definition keywords
  targets : ∀ other, TransGen registry.Uses id other → ∃ definition keywords,
    registry.get? other = some definition ∧
    document.targets.lookup (referenceText registry other) = some (.keywords keywords) ∧
    DefinitionSchema registry definition keywords
  height : ∀ definition ∈ registry.definitions, ∀ field ∈ definition.fields,
    field.type.required.height ≤ document.weight

/-- The references to the definitions of a registry. -/
def places (registry : Registry) : List String :=
  (List.range registry.size).map (referenceText registry)

variable {keywords : List Keyword}

namespace Entered

variable (entered : Entered reg id entry)
include entered

/-- What the entry uses is a definition. -/
theorem get?_of_uses {user used : Nat}
    (uses : reg.Uses user used) : ∃ defn, reg.get? used = some defn := by
  obtain ⟨defn, found, field, isField, refers⟩ := uses
  have bound := entered.proper.linked defn (mem_of_getElem? found) field isField used
    refers
  exact ⟨reg.definitions[used], getElem?_eq_getElem bound⟩

theorem mem_places {user used : Nat}
    (uses : reg.Uses user used) : referenceText reg used ∈ places reg := by
  obtain ⟨defn, found⟩ := entered.get?_of_uses uses
  obtain ⟨bound, _⟩ := List.getElem?_eq_some_iff.mp found
  exact mem_map_of_mem (mem_range.mpr bound)

/-- The references in the schema of a definition are those to the definitions that it uses. -/
theorem mem_references (found : reg.get? other = some defn)
    (read : keywordsOf .draft7 (definitionMembers reg defn) = .ok keywords) {text : String} :
    text ∈ (Schema.keywords keywords).references ↔
      ∃ used, reg.Uses other used ∧ text = referenceText reg used := by
  have schema := (entered.written (mem_of_getElem? found)).reads keywords read
  rw [schema.references]
  constructor
  · rintro ⟨field, isField, used, refers, same⟩
    exact ⟨used, ⟨defn, found, field, isField, refers⟩, same⟩
  · rintro ⟨used, ⟨user, isUser, field, isField, refers⟩, same⟩
    obtain rfl : defn = user := Option.some.inj (found.symm.trans isUser)
    exact ⟨field, isField, used, refers, same⟩

/-- The references to definitions lead only to references to definitions. -/
theorem within : Within .draft7 (.object (documentMembers reg entry)) (places reg) := by
  intro text member schema read other refers
  obtain ⟨place, bound, rfl⟩ := mem_map.mp member
  obtain ⟨defn, found⟩ : ∃ defn, reg.get? place = some defn :=
    ⟨_, getElem?_eq_getElem (mem_range.mp bound)⟩
  obtain ⟨keywords, isRead, rfl⟩ := (entered.resolves found).mp read
  obtain ⟨used, uses, rfl⟩ := (entered.mem_references found isRead).mp refers
  exact entered.mem_places uses

/-- The references of the entry are where the search starts. -/
theorem frontier (read : keywordsOf .draft7 (definitionMembers reg entry) = .ok keywords) :
    Frontier .draft7 (.object (documentMembers reg entry)) (places reg)
      (Schema.keywords keywords).references [] := by
  refine ⟨by simp, by simp, fun text refers => ?_, by simp, by simp⟩
  obtain ⟨used, isUsed, rfl⟩ := (entered.mem_references entered.found read).mp refers
  exact entered.mem_places isUsed

variable {targets : List (String × Schema)}

/-- The reference to a definition that was met is found, and with it the conditions of the
definition. -/
theorem lookup_of_met {texts : List String}
    (frontier : Frontier .draft7 (.object (documentMembers reg entry)) (places reg) texts
      targets) (found : reg.get? other = some defn)
    (isMet : referenceText reg other ∈ targets.map Prod.fst) :
    ∃ conditions,
      targets.lookup (referenceText reg other) = some (.keywords conditions) ∧
      keywordsOf .draft7 (definitionMembers reg defn) = .ok conditions := by
  obtain ⟨schema, isFound⟩ := Option.ne_none_iff_exists'.mp
    fun absent => lookup_eq_none_iff.mp absent isMet
  have resolved := frontier.resolved (referenceText reg other, schema)
    (mem_of_lookup isFound)
  obtain ⟨conditions, isRead, rfl⟩ := (entered.resolves found).mp resolved
  exact ⟨conditions, isFound, isRead⟩

/-- Following the references of the entry leads to all definitions that the entry uses. -/
theorem reaches (read : keywordsOf .draft7 (definitionMembers reg entry) = .ok keywords)
    (followed : followReferences .draft7 (.object (documentMembers reg entry)) (object
      (documentMembers reg entry)).size (Schema.keywords keywords).references [] = .ok
      targets) (uses : TransGen reg.Uses id other) :
    ∃ defn conditions, reg.get? other = some defn ∧
      targets.lookup (referenceText reg other) = some (.keywords conditions) ∧
      keywordsOf .draft7 (definitionMembers reg defn) = .ok conditions := by
  have enough : (places reg).length <
      (object (documentMembers reg entry)).size + ([] : List (String × Schema)).length := by
    rw [places, length_map, length_range]
    exact entered.size_lt
  obtain ⟨closed, begun⟩ :=
    followReferences_closed (entered.frontier read) entered.within (fun _ => enough) followed
  -- Along a chain of uses each definition is met, because its user was and the result is closed.
  have met : referenceText reg other ∈ targets.map Prod.fst := by
    induction uses with
    | @single used uses =>
      have refers : referenceText reg used ∈ (Schema.keywords keywords).references :=
        (entered.mem_references entered.found read).mpr ⟨used, uses, rfl⟩
      exact begun _ (.inl refers)
    | @tail user used earlier uses ih =>
      have ⟨defn, isUser, _⟩ := uses
      obtain ⟨conditions, isFound, isRead⟩ := entered.lookup_of_met closed isUser ih
      have refers : referenceText reg used ∈ (Schema.keywords conditions).references :=
        (entered.mem_references isUser isRead).mpr ⟨used, uses, rfl⟩
      exact (closed.follows (referenceText reg user, .keywords conditions)
        (mem_of_lookup isFound) _ refers).resolve_right (by simp)
  obtain ⟨user, _, lastUse⟩ := (TransGen.tail'_iff).mp uses
  obtain ⟨defn, found⟩ := entered.get?_of_uses lastUse
  obtain ⟨conditions, isFound, isRead⟩ := entered.lookup_of_met closed found met
  exact ⟨defn, conditions, found, isFound, isRead⟩

/-- A document with readable patterns can be used. -/
theorem usable (readable : reg.PatternsReadable id) :
    ∃ document, SchemaDocument.ofJson (.object (documentMembers reg entry)) = .ok document := by
  have reads : ∀ {other : Nat} {defn : Definition},
      ReflTransGen reg.Uses id other → reg.get? other = some defn →
      ∃ keywords, keywordsOf .draft7 (definitionMembers reg defn) = .ok keywords := by
    intro other defn uses found
    exact (entered.written (mem_of_getElem? found)).readable.mpr
      (readable.readable other defn uses found)
  obtain ⟨keywords, read⟩ := reads .refl entered.found
  obtain ⟨targets, followed⟩ : ∃ targets, followReferences .draft7
      (.object (documentMembers reg entry))
      (object (documentMembers reg entry)).size
      (Schema.keywords keywords).references [] = .ok targets := by
    refine followReferences_ok (fun text => ∃ other, TransGen reg.Uses id other ∧
      text = referenceText reg other) ?_ ?_
    · rintro _ ⟨other, uses, rfl⟩
      obtain ⟨user, _, lastUse⟩ := (TransGen.tail'_iff).mp uses
      obtain ⟨defn, found⟩ := entered.get?_of_uses lastUse
      obtain ⟨conditions, isRead⟩ := reads uses.to_reflTransGen found
      refine ⟨.keywords conditions, (entered.resolves found).mpr ⟨conditions, isRead, rfl⟩, ?_⟩
      intro text refers
      obtain ⟨used, next, rfl⟩ := (entered.mem_references found isRead).mp refers
      exact ⟨used, uses.tail next, rfl⟩
    · intro text refers
      obtain ⟨used, next, rfl⟩ := (entered.mem_references entered.found read).mp refers
      exact ⟨used, .single next, rfl⟩
  exact ⟨_, bind_ok_iff.mpr ⟨.draft7, ofDocument_dialect _,
    bind_ok_iff.mpr ⟨(), entered.shaped.mpr readable.spelled,
      bind_ok_iff.mpr ⟨_, entered.root_reads.mpr ⟨keywords, read, rfl⟩,
        bind_ok_iff.mpr ⟨targets, followed, rfl⟩⟩⟩⟩⟩

variable {document : SchemaDocument}
  (used : SchemaDocument.ofJson (.object (documentMembers reg entry)) = .ok document)
include used

/-- A document is used in three steps. -/
theorem ofJson_ok :
    checkShape .draft7 (.object (documentMembers reg entry)) = .ok () ∧
    ∃ keywords, keywordsOf .draft7 (definitionMembers reg entry) = .ok keywords ∧
      ∃ targets, followReferences .draft7 (.object (documentMembers reg entry))
          (object (documentMembers reg entry)).size
          (Schema.keywords keywords).references [] = .ok targets ∧
        document = ⟨.keywords keywords, targets,
          (object (documentMembers reg entry)).size⟩ := by
  obtain ⟨draft, named, afterDraft⟩ := bind_ok_iff.mp used
  obtain rfl : .draft7 = draft := Except.ok.inj ((ofDocument_dialect _).symm.trans named)
  obtain ⟨_, shaped, afterShape⟩ := bind_ok_iff.mp afterDraft
  obtain ⟨root, rootRead, afterRoot⟩ := bind_ok_iff.mp afterShape
  obtain ⟨targets, followed, same⟩ := bind_ok_iff.mp afterRoot
  obtain ⟨keywords, read, rfl⟩ := entered.root_reads.mp rootRead
  cases same
  exact ⟨shaped, keywords, read, targets, followed, rfl⟩

/-- A document that is used holds what the entry uses. -/
theorem faithful : Faithful reg id document := by
  obtain ⟨_, keywords, read, targets, followed, rfl⟩ := entered.ofJson_ok used
  constructor
  case root =>
    exact ⟨entry, keywords, entered.found, rfl,
      (entered.written entered.entry_mem).reads keywords read⟩
  case targets =>
    intro other uses
    obtain ⟨defn, conditions, found, isFound, isRead⟩ := entered.reaches read followed uses
    exact ⟨defn, conditions, found, isFound,
      (entered.written (mem_of_getElem? found)).reads conditions isRead⟩
  case height =>
    intro defn member field isField
    exact entered.height_le member isField

/-- A document that is used has readable patterns. -/
theorem patternsReadable : reg.PatternsReadable id := by
  obtain ⟨shaped, keywords, read, targets, followed, _⟩ := entered.ofJson_ok used
  refine ⟨entered.shaped.mp shaped, fun other defn uses found => ?_⟩
  refine (entered.written (mem_of_getElem? found)).readable.mp ?_
  rcases reflTransGen_iff_eq_or_transGen.mp uses with rfl | uses
  · obtain rfl : entry = defn := Option.some.inj (entered.found.symm.trans found)
    exact ⟨keywords, read⟩
  · obtain ⟨same, conditions, isSame, _, isRead⟩ := entered.reaches read followed uses
    obtain rfl : same = defn := Option.some.inj (isSame.symm.trans found)
    exact ⟨conditions, isRead⟩

end Entered

end SchemaLang.JsonSchema
