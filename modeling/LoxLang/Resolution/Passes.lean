import LoxLang.Resolution.Annotate
import LoxLang.Resolution.Check

/-!
# Resolving more than once

Resolution is meant to happen once. A further pass over a tree changes no depth
that is there and reports every occurrence that it would have resolved.
-/

namespace LoxLang

/-- Resolution done several times over, and what it reports each time. -/
def Stmt.resolveTimes : Nat → List Stmt → List Stmt × List (Located StaticError)
  | 0, program => (program, [])
  | n + 1, program =>
    let (resolved, errors) := Stmt.resolveTimes n (Stmt.resolve program)
    (resolved, Stmt.staticErrors program ++ errors)

end LoxLang
