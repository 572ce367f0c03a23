import SchemaLang.Main
import SchemaLang.Proofs.Baseline
import SchemaLang.Proofs.Bindings.RustIdentifiers
import SchemaLang.Proofs.Bindings.RustShadowing
import SchemaLang.Proofs.Bindings.TypeScriptTypes
import SchemaLang.Proofs.CommandLine.WrittenFiles
import SchemaLang.Proofs.Compilation.Artifacts
import SchemaLang.Proofs.Compilation.Diagnostics
import SchemaLang.Proofs.Compilation.EntryPoints
import SchemaLang.Proofs.Compilation.TextValidation
import SchemaLang.Proofs.JsonSchema.Aliasing
import SchemaLang.Proofs.JsonSchema.Order
import SchemaLang.Proofs.JsonSchema.Violations
import SchemaLang.Proofs.Module.Cycles
import SchemaLang.Proofs.Registry.Attachment
import SchemaLang.Proofs.Registry.Hygiene
import SchemaLang.Proofs.Token.Spelling
