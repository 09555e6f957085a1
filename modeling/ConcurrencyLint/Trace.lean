import ConcurrencyLint.Walk

/-!
# Tracing a walk

A visitor that records every call made to it, with the context of the call.
-/

namespace ConcurrencyLint

/-- One call made on a walk. -/
inductive TraceEvent where
  | enter (n : Node) (ctx : Context)
  | exit (closed : Scope) (ctx : Context)

/-- Records every call. -/
def tracer : Visitor TraceEvent where
  enter ctx n := [.enter n ctx]
  leave ctx closed := [.exit closed ctx]

end ConcurrencyLint
