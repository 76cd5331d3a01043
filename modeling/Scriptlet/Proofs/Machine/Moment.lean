import Scriptlet.Machine.Eval

namespace Scriptlet.Machine

inductive Task
  | evaluate (e : Expr)
  | evaluateAll (es : List Expr)
  | evaluate? (e : Option Expr)
  | call (paren : Token) (f : Value) (arguments : List Value)
  | apply (callable : Callable) (arguments : List Value)
  | execute (stmt : Stmt)
  | executeAll (stmts : List Stmt)

/-- With a budget of `n` left for its pieces, the run of a task on a machine enters another task on another machine. -/
inductive Enters (s : Setting) (n : Nat) : Task → Machine → Task → Machine → Prop
  | group {inner m} : Enters s n (.evaluate (.group inner)) m (.evaluate inner) m
  | assign {id name e m} : Enters s n (.evaluate (.assign id name e)) m (.evaluate e) m
  | logicalLeft {operator left right m} : Enters s n (.evaluate (.logical operator left right)) m (.evaluate left) m
  | logicalRight {left m v m₁ operator right} (first : evaluate s n left m = .ok v m₁)
      (undecided : (v.truthy == (operator.kind == .orWord)) = false) :
      Enters s n (.evaluate (.logical operator left right)) m (.evaluate right) m₁
  | unary {operator e m} : Enters s n (.evaluate (.unary operator e)) m (.evaluate e) m
  | binaryLeft {operator left right m} : Enters s n (.evaluate (.binary operator left right)) m (.evaluate left) m
  | binaryRight {left m v m₁ operator right} (first : evaluate s n left m = .ok v m₁) :
      Enters s n (.evaluate (.binary operator left right)) m (.evaluate right) m₁
  | callee {callee paren arguments m} : Enters s n (.evaluate (.call callee paren arguments)) m (.evaluate callee) m
  | arguments {callee m f m₁ paren arguments} (first : evaluate s n callee m = .ok f m₁) :
      Enters s n (.evaluate (.call callee paren arguments)) m (.evaluateAll arguments) m₁
  | call {callee m f m₁ arguments values m₂ paren} (first : evaluate s n callee m = .ok f m₁)
      (second : evaluateAll s n arguments m₁ = .ok values m₂) :
      Enters s n (.evaluate (.call callee paren arguments)) m (.call paren f values) m₂
  | indexTarget {target bracket place m} : Enters s n (.evaluate (.index target bracket place)) m (.evaluate target) m
  | indexPlace {target m v m₁ bracket place} (first : evaluate s n target m = .ok v m₁) :
      Enters s n (.evaluate (.index target bracket place)) m (.evaluate place) m₁
  | head {e es m} : Enters s n (.evaluateAll (e :: es)) m (.evaluate e) m
  | tail {e m v m₁ es} (first : evaluate s n e m = .ok v m₁) :
      Enters s n (.evaluateAll (e :: es)) m (.evaluateAll es) m₁
  | some {e m} : Enters s n (.evaluate? (some e)) m (.evaluate e) m
  | apply {values callable m paren serial} (arity : values.length = callable.arity) (shallow : m.depth < maxDepth) :
      Enters s n (.call paren (.function serial callable) values) m (.apply callable values)
        { m with depth := m.depth + 1 }
  | closure {outer m frame m₁ parameters values m₂ name body} (opened : newFrame outer m = .ok frame m₁)
      (bound : bindParameters frame parameters values m₁ = .ok () m₂) :
      Enters s n (.apply (.closure name parameters body outer) values) m (.executeAll body)
        { m₂ with current := frame }
  | builtin {builtin serial callable values m} (applies : builtin.action = .apply) :
      Enters s n (.apply (.builtin builtin) (.function serial callable :: values)) m (.apply callable values) m
  | expression {e m} : Enters s n (.execute (.expression e)) m (.evaluate e) m
  | print {e m} : Enters s n (.execute (.print e)) m (.evaluate e) m
  | declare {name initial m} : Enters s n (.execute (.declare name initial)) m (.evaluate? initial) m
  | block {m frame m₁ body} (opened : newFrame m.current m = .ok frame m₁) :
      Enters s n (.execute (.block body)) m (.executeAll body) { m₁ with current := frame }
  | ifThenCondition {condition yes m} : Enters s n (.execute (.ifThen condition yes)) m (.evaluate condition) m
  | ifThenYes {condition m v m₁ yes} (first : evaluate s n condition m = .ok v m₁) (holds : v.truthy = true) :
      Enters s n (.execute (.ifThen condition yes)) m (.execute yes) m₁
  | ifElseCondition {condition yes no m} : Enters s n (.execute (.ifElse condition yes no)) m (.evaluate condition) m
  | ifElseYes {condition m v m₁ yes no} (first : evaluate s n condition m = .ok v m₁) (holds : v.truthy = true) :
      Enters s n (.execute (.ifElse condition yes no)) m (.execute yes) m₁
  | ifElseNo {condition m v m₁ yes no} (first : evaluate s n condition m = .ok v m₁) (fails : v.truthy = false) :
      Enters s n (.execute (.ifElse condition yes no)) m (.execute no) m₁
  | loopCondition {condition stmt m} : Enters s n (.execute (.loop condition stmt)) m (.evaluate condition) m
  | loopBody {condition m v m₁ stmt} (first : evaluate s n condition m = .ok v m₁) (holds : v.truthy = true) :
      Enters s n (.execute (.loop condition stmt)) m (.execute stmt) m₁
  | loopAgain {condition m v m₁ stmt m₂} (first : evaluate s n condition m = .ok v m₁) (holds : v.truthy = true)
      (second : execute s n stmt m₁ = .ok .onward m₂) :
      Enters s n (.execute (.loop condition stmt)) m (.execute (.loop condition stmt)) m₂
  | leave {keyword initial m} : Enters s n (.execute (.leave keyword initial)) m (.evaluate? initial) m
  | first {stmt rest m} : Enters s n (.executeAll (stmt :: rest)) m (.execute stmt) m
  | next {stmt m m₁ rest} (first : execute s n stmt m = .ok .onward m₁) :
      Enters s n (.executeAll (stmt :: rest)) m (.executeAll rest) m₁

/-- The moments of a run: with a budget of `n` a task is begun on a machine, and in the course of it with a budget of
`k` another one on another machine. -/
inductive Visits (s : Setting) : Nat → Task → Machine → Nat → Task → Machine → Prop
  | here (n : Nat) (task : Task) (m : Machine) : Visits s n task m n task m
  | step {n k : Nat} {task task' task'' : Task} {m m' m'' : Machine} (enters : Enters s n task m task' m')
      (later : Visits s n task' m' k task'' m'') : Visits s (n + 1) task m k task'' m''

end Scriptlet.Machine
