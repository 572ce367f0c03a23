import SchemaLang.Declaration.Grammar
import SchemaLang.Proofs.Bindings.Atomicity
import SchemaLang.Proofs.Registry.Linking
import SchemaLang.Proofs.Registry.Reachability

/-!
# The sizes of Rust types

A value of a generated type has a finite size if no type holds itself by value, neither
directly nor through other types. To say so, the type of every field is laid out as a tree:
what it mentions, and whether in a vector or in a box. The generated text is the text of these
trees, and the types they mention by value make a graph without cycles.

A box stands exactly where a mention outside all vectors leads back to the type it is in.
-/

namespace SchemaLang.RustBindings

open Outcome List FieldType Relation

/-- A generated type, with the definitions it mentions. -/
inductive RustType where
  | plain (name : String)
  | held (id : Nat)
  | boxed (id : Nat)
  | vector (item : RustType)
  | option (inner : RustType)
  | choice (variants : List String) (arms : List RustType)

/-- One mention of a definition in a generated type. -/
structure Mention where
  id : Nat
  insideVector : Bool
  boxed : Bool
deriving DecidableEq, Repr

namespace RustType

mutual

/-- The mentions of a type that stands inside a vector or not. -/
def mentions (insideVector : Bool) : RustType → List Mention
  | .plain _ => []
  | .held id => [⟨id, insideVector, false⟩]
  | .boxed id => [⟨id, insideVector, true⟩]
  | .vector item => item.mentions true
  | .option inner => inner.mentions insideVector
  | .choice _ arms => mentionsOfAll insideVector arms

/-- The mentions of several types. -/
def mentionsOfAll (insideVector : Bool) : List RustType → List Mention
  | [] => []
  | type :: types => type.mentions insideVector ++ mentionsOfAll insideVector types

end

/-- The identifier of the definition of a number. -/
def identifier (context : FieldContext) (id : Nat) : String :=
  ((context.registry.get? id).map Definition.identifier).getD ""

/-- A type as text. A choice goes by the name of its enum. -/
def text (context : FieldContext) : RustType → String
  | .plain name => name
  | .held id => identifier context id
  | .boxed id => "Box<" ++ identifier context id ++ ">"
  | .vector item => "Vec<" ++ item.text context ++ ">"
  | .option inner => "Option<" ++ inner.text context ++ ">"
  | .choice _ _ => unionName context

mutual

/-- The enums of the choices in a type, inner ones first. -/
def enums (context : FieldContext) : RustType → List String
  | .vector item => item.enums context
  | .option inner => inner.enums context
  | .choice variants arms =>
    enumsOfAll context arms ++
      [unionText (unionName context) (variants.zip (arms.map (text context)))]
  | .plain _ => []
  | .held _ => []
  | .boxed _ => []

/-- The enums of the choices in several types. -/
def enumsOfAll (context : FieldContext) : List RustType → List String
  | [] => []
  | type :: types => type.enums context ++ enumsOfAll context types

end

/-- The name of the variant for an arm. -/
def variant (context : FieldContext) (arm : FieldType Nat) : String :=
  (variantName context arm).toOption.getD ""

mutual

/-- The tree for a type expression. A mention is boxed if it leads back to the owner and no
vector stands between. -/
def ofFieldType (context : FieldContext) (insideVector : Bool) : FieldType Nat → RustType
  | .primitive kind => .plain (ofPrimitive kind)
  | .range kind _ _ => .plain (ofPrimitive kind.primitive)
  | .reference id =>
    if !insideVector && context.registry.reaches id context.ownerId then .boxed id else .held id
  | .array item => .vector (ofFieldType context true item)
  | .optional inner => .option (ofFieldType context insideVector inner)
  | .union arms => .choice (arms.map (variant context)) (ofFieldTypes context insideVector arms)

/-- The trees for several type expressions. -/
def ofFieldTypes (context : FieldContext) (insideVector : Bool) :
    List (FieldType Nat) → List RustType
  | [] => []
  | type :: types => ofFieldType context insideVector type :: ofFieldTypes context insideVector types

end

/-- The tree for the field of a context. -/
def ofField (context : FieldContext) : RustType := ofFieldType context false context.field.type

end RustType

/-! ## The generated text -/

/-- The lines of a field with a given type. -/
def fieldText (context : FieldContext) : String :=
  let identifier := Target.rust.fieldIdentifier context.field.name
  "\n".intercalate (renameLines context.field.name identifier ++
    ["    pub " ++ identifier ++ ": " ++ (RustType.ofField context).text context ++ ","])

/-- A struct with the types of its fields. -/
def structText (registry : Registry) (id : Nat) (definition : Definition)
    (content : RecordBody) : String :=
  let fields := content.fields.map fun field => fieldText ⟨registry, id, definition, field⟩
  "#[skip_serializing_none]\n#[derive(Debug, Clone, PartialEq, Serialize, Deserialize)]\n" ++
    "pub struct " ++ definition.identifier ++ " \x7b\n" ++ "\n".intercalate fields ++ "\n\x7d\n"

/-- The enums that a record carries with it. -/
def enumTexts (registry : Registry) (id : Nat) (definition : Definition)
    (fields : List DefinedField) : List String :=
  fields.flatMap fun field =>
    let context := ⟨registry, id, definition, field⟩
    (RustType.ofField context).enums context

/-- The text of a definition: an enum of its members, or a struct followed by the enums of the
choices in its fields. -/
inductive Block (registry : Registry) (id : Nat) (definition : Definition) : String → Prop where
  | enumeration {members : List String} {text : String}
      (body : definition.body = .enumeration members)
      (written : ofEnum definition members = .ok text) : Block registry id definition text
  | record {content : RecordBody} (body : definition.body = .record content) :
      Block registry id definition ("\n".intercalate
        (structText registry id definition content ::
          enumTexts registry id definition content.fields))

open Emission

variable {context ctx : FieldContext} {definition defn : Definition}

theorem definition_ok_iff {id : Nat} :
    ctx.definition id = .ok defn ↔ ctx.registry.get? id = some defn := by
  unfold FieldContext.definition
  cases ctx.registry.get? id with
  | none | some _ => simp

theorem ofReference_ok {insideVector : Bool} {id : Nat} {text : String}
    (done : ofReference ctx insideVector id = .ok text) :
    text = (RustType.ofFieldType ctx insideVector (.reference id)).text ctx := by
  obtain ⟨defn, found, same⟩ := bind_ok_iff.mp done
  have isIdentifier : RustType.identifier ctx id = defn.identifier := by
    rw [RustType.identifier, definition_ok_iff.mp found]
    rfl
  rw [RustType.ofFieldType]
  split at same
  · rename_i leadsBack
    rw [← Except.ok.inj same, if_pos leadsBack, RustType.text, isIdentifier]
  · rename_i leadsAway
    rw [← Except.ok.inj same, if_neg leadsAway, RustType.text, isIdentifier]

variable {progress final : Progress}

/-- A free name is the name of the union, and finding it makes nothing. -/
theorem freeUnionName_ok {name : String}
    (done : outcome (freeUnionName ctx) progress = (.ok name, final)) :
    name = unionName ctx ∧ final = progress := by
  rcases freeUnionName_cases ctx progress with
    ⟨_, _, named⟩ | ⟨_, construct, stopped, _⟩
  · rw [named] at done
    cases done
    exact ⟨rfl, rfl⟩
  · rw [stopped] at done
    cases done

mutual

/-- Writing a type gives the text of its tree, and leaves its enums to be written. -/
theorem ofType_ok {type : FieldType Nat} {insideVector : Bool} {text : String}
    {progress final : Progress}
    (done : outcome (ofType ctx insideVector type) progress = (.ok text, final)) :
    text = (RustType.ofFieldType ctx insideVector type).text ctx ∧
      final.pending = progress.pending ++
        (RustType.ofFieldType ctx insideVector type).enums ctx := by
  match type with
  | .primitive _ | .range _ _ _ =>
    cases done
    exact ⟨rfl, (append_nil _).symm⟩
  | .reference id =>
    rw [ofType, outcome_liftExcept, Prod.mk.injEq] at done
    obtain ⟨found, rfl⟩ := done
    refine ⟨ofReference_ok found, ?_⟩
    rw [RustType.ofFieldType]
    split <;> exact (append_nil _).symm
  | .array item =>
    obtain ⟨inner, _, written, same⟩ := bind_ok_iff.mp done
    obtain ⟨rfl, rfl⟩ := pure_ok_iff.mp same
    obtain ⟨rfl, made⟩ := ofType_ok written
    exact ⟨rfl, made⟩
  | .optional inner =>
    obtain ⟨held, _, written, same⟩ := bind_ok_iff.mp done
    obtain ⟨rfl, rfl⟩ := pure_ok_iff.mp same
    obtain ⟨rfl, made⟩ := ofType_ok written
    exact ⟨rfl, made⟩
  | .union arms =>
    obtain ⟨name, _, named, others⟩ := bind_ok_iff.mp done
    obtain ⟨rfl, rfl⟩ := freeUnionName_ok named
    obtain ⟨variants, middle, written, added⟩ := bind_ok_iff.mp others
    obtain ⟨rfl, made⟩ := ofArms_ok written
    cases added
    refine ⟨rfl, ?_⟩
    show middle.pending ++ _ = _
    rw [made, append_assoc]
    rfl

/-- Writing the arms of a union gives their variants with the texts of their trees. -/
theorem ofArms_ok {arms : List (FieldType Nat)} {insideVector : Bool}
    {earlier variants : List (String × String)} {progress final : Progress}
    (done : outcome (ofArms ctx insideVector earlier arms) progress = (.ok variants, final)) :
    variants = earlier ++ (arms.map (RustType.variant ctx)).zip
        ((RustType.ofFieldTypes ctx insideVector arms).map (RustType.text ctx)) ∧
      final.pending = progress.pending ++
        RustType.enumsOfAll ctx (RustType.ofFieldTypes ctx insideVector arms) := by
  match arms with
  | [] =>
    cases done
    exact ⟨(append_nil _).symm, (append_nil _).symm⟩
  | arm :: arms =>
    obtain ⟨variant, _, named, others⟩ := bind_ok_iff.mp done
    rw [outcome_liftExcept, Prod.mk.injEq] at named
    obtain ⟨named, rfl⟩ := named
    have isVariant : RustType.variant ctx arm = variant := by
      rw [RustType.variant, named]
      rfl
    obtain ⟨type, middle, written, remaining⟩ := bind_ok_iff.mp others
    obtain ⟨rfl, made⟩ := ofType_ok written
    split at remaining
    · exact absurd remaining throw_ne_ok
    · obtain ⟨rfl, madeLater⟩ := ofArms_ok remaining
      constructor
      · rw [append_assoc, ← isVariant]
        rfl
      · rw [madeLater, made, append_assoc]
        rfl

end

/-- Writing the fields of a record gives their texts, and leaves their enums to be written. -/
theorem fields_ok {reg : Registry} {id : Nat} {fields : List DefinedField}
    {lines : List String}
    (done : outcome (fields.mapM fun field => ofField ⟨reg, id, defn, field⟩) progress =
      (.ok lines, final)) :
    lines = fields.map (fun field => fieldText ⟨reg, id, defn, field⟩) ∧
      final.pending = progress.pending ++ enumTexts reg id defn fields := by
  induction fields generalizing lines progress with
  | nil =>
    cases done
    exact ⟨rfl, (append_nil _).symm⟩
  | cons field fields ih =>
    rw [mapM_cons] at done
    obtain ⟨line, middle, first, others⟩ := bind_ok_iff.mp done
    obtain ⟨later, last, mapped, same⟩ := bind_ok_iff.mp others
    obtain ⟨rfl, rfl⟩ := pure_ok_iff.mp same
    obtain ⟨type, _, written, sameLine⟩ := bind_ok_iff.mp first
    obtain ⟨rfl, rfl⟩ := pure_ok_iff.mp sameLine
    obtain ⟨rfl, made⟩ := ofType_ok written
    obtain ⟨rfl, madeLater⟩ := ih mapped
    refine ⟨rfl, ?_⟩
    rw [madeLater, made, append_assoc]
    rfl

/-- Writing a definition when no enum waits gives its block, and none waits afterwards. -/
theorem ofDefinition_ok {reg : Registry} {id : Nat} {text : String}
    (noneWaits : progress.pending = [])
    (done : outcome (ofDefinition reg id defn) progress = (.ok text, final)) :
    Block reg id defn text ∧ final.pending = [] := by
  unfold ofDefinition at done
  split at done
  · rename_i members body
    rw [outcome_liftExcept, Prod.mk.injEq] at done
    obtain ⟨written, rfl⟩ := done
    exact ⟨.enumeration body written, noneWaits⟩
  · rename_i content body
    obtain ⟨lines, middle, written, others⟩ := bind_ok_iff.mp done
    obtain ⟨rfl, made⟩ := fields_ok written
    obtain ⟨_, _, got, remaining⟩ := bind_ok_iff.mp others
    cases got
    obtain ⟨_, _, cleared, same⟩ := bind_ok_iff.mp remaining
    cases cleared
    obtain ⟨rfl, rfl⟩ := pure_ok_iff.mp same
    rw [noneWaits, nil_append] at made
    rw [made]
    exact ⟨.record body, rfl⟩

/-- The blocks of a registry are those of its definitions. -/
theorem generate_ok {reg : Registry} {blocks : List String}
    (done : generate reg = .ok blocks) :
    Forall₂ (fun numbered block => Block reg numbered.1 numbered.2 block)
      reg.numbered blocks := by
  have noneWaits : ({} : Progress).pending = [] := rfl
  refine (mapM_ok (fun progress => progress.pending = []) ?_ noneWaits
    (Prod.ext done rfl)).1
  intro numbered _ block start made startsEmpty written
  exact ofDefinition_ok startsEmpty written

/-! ## The graph of mentions -/

/-- A mention is boxed exactly when it leads back to the owner and no vector stands between.
Outside all vectors it is one of the direct references of the type. -/
structure Mention.Placed (context : FieldContext) (insideVector : Bool) (direct : List Nat)
    (mention : Mention) : Prop where
  boxed : mention.boxed =
    (!mention.insideVector && context.registry.reaches mention.id context.ownerId)
  direct : mention.insideVector = false → insideVector = false ∧ mention.id ∈ direct

variable {mention : Mention}

theorem Mention.Placed.mono {insideVector : Bool} {direct more : List Nat}
    (placed : mention.Placed ctx insideVector direct) (subset : ∀ id ∈ direct, id ∈ more) :
    mention.Placed ctx insideVector more :=
  ⟨placed.boxed, fun outside => (placed.direct outside).imp_right (subset mention.id)⟩

namespace RustType

theorem mentionsOfAll_arms (ctx : FieldContext) (insideVector : Bool)
    (arms : List (FieldType Nat)) :
    mentionsOfAll insideVector (ofFieldTypes ctx insideVector arms) =
      arms.flatMap fun arm => (ofFieldType ctx insideVector arm).mentions insideVector := by
  induction arms with
  | nil => rfl
  | cons arm arms ih => rw [ofFieldTypes, mentionsOfAll, ih, flatMap_cons]

/-- Where the mentions of the tree for a type stand. -/
theorem mention_placed {type : FieldType Nat} {insideVector : Bool} {mention : Mention}
    (member : mention ∈ (ofFieldType ctx insideVector type).mentions insideVector) :
    mention.Placed ctx insideVector type.directReferences := by
  induction type generalizing insideVector with
  | primitive _ | range _ _ _ => cases member
  | reference id =>
    have isDirect : id ∈ (reference id).directReferences := by
      rw [directReferences]
      exact mem_cons_self
    rw [ofFieldType] at member
    split at member
    · rename_i leadsBack
      rw [mem_singleton.mp member]
      exact ⟨leadsBack.symm, fun outside => ⟨outside, isDirect⟩⟩
    · rename_i leadsAway
      rw [mem_singleton.mp member]
      exact ⟨(Bool.eq_false_iff.mpr leadsAway).symm, fun outside => ⟨outside, isDirect⟩⟩
  | array item ih =>
    have inner : mention.Placed ctx true item.directReferences := ih member
    refine ⟨inner.boxed, fun outside => ?_⟩
    cases (inner.direct outside).1
  | optional inner ih =>
    rw [directReferences]
    exact ih member
  | union arms each =>
    rw [ofFieldType, mentions, mentionsOfAll_arms] at member
    obtain ⟨arm, isArm, inside⟩ := mem_flatMap.mp member
    refine (each arm isArm inside).mono fun id isDirect => ?_
    rw [directReferences]
    exact mem_directReferencesOfAll.mpr ⟨arm, isArm, isDirect⟩

/-- The tree for a type mentions its references, in their order. -/
theorem mentions_ids (ctx : FieldContext) (insideVector : Bool) (type : FieldType Nat) :
    ((ofFieldType ctx insideVector type).mentions insideVector).map Mention.id =
      type.references := by
  induction type generalizing insideVector with
  | primitive _ | range _ _ _ => rfl
  | reference id =>
    rw [ofFieldType]
    split <;> rfl
  | array item ih => exact ih true
  | optional inner ih => exact ih insideVector
  | union arms each =>
    rw [ofFieldType, mentions, mentionsOfAll_arms, map_flatMap, references,
      referencesOfAll_eq_flatMap]
    exact flatMap_congr fun arm isArm => each arm isArm insideVector

end RustType

/-- The mentions in the type of a field. -/
def mentionsOf (registry : Registry) (id : Nat) (definition : Definition)
    (field : DefinedField) : List Mention :=
  (RustType.ofField ⟨registry, id, definition, field⟩).mentions false

/-- The type for a definition embeds the type for another: one of its fields mentions it
neither inside a vector nor in a box. -/
def Embeds (registry : Registry) (owner target : Nat) : Prop :=
  ∃ definition, registry.get? owner = some definition ∧ ∃ field ∈ definition.fields,
    ⟨target, false, false⟩ ∈ mentionsOf registry owner definition field

variable {registry reg : Registry} {owner : Nat}

/-- What a mention outside all vectors leads to is held by value. -/
theorem holdsByValue_of_mention {field : DefinedField}
    (found : reg.get? owner = some defn) (isField : field ∈ defn.fields)
    (member : mention ∈ mentionsOf reg owner defn field)
    (outside : mention.insideVector = false) : reg.HoldsByValue owner mention.id :=
  ⟨defn, found, field, isField, ((RustType.mention_placed member).direct outside).2⟩

/-- A mention is boxed exactly when it lies on a cycle by value. -/
theorem boxed_iff {field : DefinedField} (found : reg.get? owner = some defn)
    (isField : field ∈ defn.fields)
    (member : mention ∈ mentionsOf reg owner defn field) :
    mention.boxed = true ↔ mention.insideVector = false ∧
      reg.HoldsByValue owner mention.id ∧
      ReflTransGen reg.HoldsByValue mention.id owner := by
  have placed := RustType.mention_placed member
  rw [placed.boxed, Bool.and_eq_true, Bool.not_eq_true', Registry.reaches_iff]
  constructor
  · rintro ⟨outside, leadsBack⟩
    exact ⟨outside, holdsByValue_of_mention found isField member outside, leadsBack⟩
  · rintro ⟨outside, _, leadsBack⟩
    exact ⟨outside, leadsBack⟩

/-- What is embedded is held by value and does not lead back. -/
theorem Embeds.forward {target : Nat} (embeds : Embeds reg owner target) :
    reg.HoldsByValue owner target ∧
      ¬ ReflTransGen reg.HoldsByValue target owner := by
  obtain ⟨defn, found, field, isField, member⟩ := embeds
  have holds := holdsByValue_of_mention found isField member rfl
  refine ⟨holds, fun leadsBack => ?_⟩
  have isBoxed := (boxed_iff found isField member).mpr ⟨rfl, holds, leadsBack⟩
  cases isBoxed

/-- No type embeds itself, however many types stand between. -/
theorem embeds_acyclic (reg : Registry) (id : Nat) : ¬ TransGen (Embeds reg) id id := by
  intro cycle
  obtain ⟨next, embeds, path⟩ := TransGen.head'_iff.mp cycle
  have weaker : Embeds reg ≤ reg.HoldsByValue := fun _ _ step => step.forward.1
  have leadsBack : ReflTransGen reg.HoldsByValue next id :=
    ReflTransGen.mono weaker next id path
  exact embeds.forward.2 leadsBack

/-- Generated bindings are the text of their types, which have finite sizes: no type embeds
itself. Every reference of a field is mentioned, and a mention is boxed exactly when it stands
outside all vectors and lies on a cycle by value. -/
theorem rust_types_finitely_sized {text : String}
    (generated : Target.rust.generate registry = .ok text) :
    (∃ blocks, text = "\n".intercalate (preamble ++ blocks) ∧
      List.Forall₂ (fun numbered block => Block registry numbered.1 numbered.2 block)
        registry.numbered blocks) ∧
    (∀ id, ¬ Relation.TransGen (Embeds registry) id id) ∧
    ∀ owner definition, registry.get? owner = some definition → ∀ field ∈ definition.fields,
      (mentionsOf registry owner definition field).map Mention.id = field.type.references ∧
      ∀ mention ∈ mentionsOf registry owner definition field,
        (mention.boxed = true ↔ mention.insideVector = false ∧
          registry.HoldsByValue owner mention.id ∧
          Relation.ReflTransGen registry.HoldsByValue mention.id owner) := by
  obtain ⟨_, _, others⟩ := Outcome.bind_ok_iff.mp generated
  obtain ⟨blocks, written, same⟩ := Outcome.bind_ok_iff.mp others
  obtain rfl := Except.ok.inj same
  refine ⟨⟨blocks, rfl, generate_ok written⟩, embeds_acyclic registry, ?_⟩
  intro owner definition found field isField
  exact ⟨RustType.mentions_ids _ false field.type, fun _ => boxed_iff found isField⟩

/-- Records that hold each other by value through a union. -/
def entangled : List ScopedDeclaration :=
  ((parse "tree" ("type Node \x7b either: Leaf | string others: Node[] \x7d\n" ++
    "type Leaf \x7b back: Node? \x7d")).toOption.getD []).map (⟨none, 0, ·⟩)

/-- The first record leads back to itself by value, so the mention of the second is boxed, and
no type embeds itself. -/
theorem rust_types_finitely_sized_entangled :
    ∃ registry text, Registry.build entangled = .ok registry ∧
      Target.rust.generate registry = .ok text ∧
      Relation.TransGen registry.HoldsByValue 0 0 ∧
      ∀ id, ¬ Relation.TransGen (Embeds registry) id id := by
  obtain ⟨registry, built, view⟩ := Outcome.ok_of_view
    (show (Registry.build entangled).toOption.map (fun registry =>
        ((Target.rust.generate registry).toOption.isSome,
          (registry.get? 0).bind fun definition => definition.fields[0]?.map fun field =>
            mentionsOf registry 0 definition field)) =
      some (true, some [⟨1, false, true⟩]) by decide +kernel)
  obtain ⟨isGenerated, mentioned⟩ := Prod.mk.inj view
  obtain ⟨definition, found, first⟩ := Option.bind_eq_some_iff.mp mentioned
  obtain ⟨field, isFirst, isMention⟩ := Option.map_eq_some_iff.mp first
  obtain ⟨text, generated⟩ := Outcome.ok_of_isSome isGenerated
  obtain ⟨_, acyclic, mentions⟩ := rust_types_finitely_sized generated
  have member : ⟨1, false, true⟩ ∈ mentionsOf registry 0 definition field := by
    rw [isMention]
    exact List.mem_cons_self
  obtain ⟨_, holds, leadsBack⟩ :=
    ((mentions 0 definition found field (List.mem_of_getElem? isFirst)).2 _ member).mp rfl
  exact ⟨registry, text, built, generated, .head' holds leadsBack, acyclic⟩

end SchemaLang.RustBindings
