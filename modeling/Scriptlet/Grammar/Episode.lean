import Scriptlet.Grammar.Fault

namespace Scriptlet.Grammar

inductive Episode
  | fault (error : Located Fault) (hushed : Bool)
  | declaration (history : List Episode) (kept : Bool)

namespace Episode

mutual

def faults : Episode → List (Located Fault)
  | .fault error hushed => if hushed then [] else [error]
  | .declaration history _ => faultsIn history

def faultsIn : List Episode → List (Located Fault)
  | [] => []
  | episode :: rest => episode.faults ++ faultsIn rest

end

end Episode
end Scriptlet.Grammar
