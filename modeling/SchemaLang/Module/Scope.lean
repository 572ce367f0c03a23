import SchemaLang.Declaration

/-!
# Scopes

Declarations of several modules are put together in one list. Each keeps the scope
into which its module was imported, the aliases on the way joined by points, and
the number of the contribution it belongs to. A scope is part of the names that are
declared in it.
-/

namespace SchemaLang

/-- A name inside a scope. -/
def qualify : Option String → String → String
  | some scope, name => scope ++ "." ++ name
  | none, name => name

/-- A declaration with its scope and its contribution. -/
structure ScopedDeclaration where
  scope? : Option String
  unit : Nat
  declaration : Declaration
deriving Repr

namespace ScopedDeclaration

/-- The full name that a declaration introduces, if it does. -/
def qualifiedName? (statement : ScopedDeclaration) : Option String :=
  statement.declaration.name?.map (qualify statement.scope?)

end ScopedDeclaration

end SchemaLang
