import Scriptlet.Token

namespace Scriptlet.Grammar

inductive Slot
  | variableName | declarationEnd
  | functionName | parametersStart | parameterName | parametersEnd | bodyStart
  | printEnd | returnEnd | expressionEnd
  | ifStart | ifEnd | whileStart | whileEnd
  | forStart | forCondition | forEnd
  | blockEnd | groupEnd | indexEnd | argumentsEnd
  deriving DecidableEq

def Slot.kind : Slot → Token.Kind
  | .variableName | .functionName | .parameterName => .identifier
  | .declarationEnd | .printEnd | .returnEnd | .expressionEnd | .forCondition => .semicolon
  | .parametersStart | .ifStart | .whileStart | .forStart => .leftParen
  | .parametersEnd | .ifEnd | .whileEnd | .forEnd | .groupEnd | .argumentsEnd => .rightParen
  | .bodyStart => .leftBrace
  | .blockEnd => .rightBrace
  | .indexEnd => .rightSquare

def Slot.describe : Slot → String
  | .variableName => "variable name after 'var'"
  | .declarationEnd => "';' after variable declaration"
  | .functionName => "function name after 'fun'"
  | .parametersStart => "'(' after function name"
  | .parameterName => "parameter name"
  | .parametersEnd => "')' after parameters"
  | .bodyStart => "'\x7b' before function body"
  | .printEnd => "';' after value"
  | .returnEnd => "';' after return value"
  | .expressionEnd => "';' after expression"
  | .ifStart => "'(' after 'if'"
  | .ifEnd => "')' after 'if' condition"
  | .whileStart => "'(' after 'while'"
  | .whileEnd => "')' after 'while' condition"
  | .forStart => "'(' after 'for'"
  | .forCondition => "';' after loop condition"
  | .forEnd => "')' after for clauses"
  | .blockEnd => "'\x7d' after block"
  | .groupEnd => "')' after expression"
  | .indexEnd => "']' after index expression"
  | .argumentsEnd => "')' after function call arguments"

inductive Fault
  | missing (slot : Slot)
  | missingExpression
  | missingPayload
  | invalidTarget
  | tooManyParameters
  | tooManyArguments
  deriving DecidableEq

def maxArguments : Nat := 255

def Fault.message : Fault → String
  | .missing slot => "Expected " ++ slot.describe
  | .missingExpression => "Expected expression"
  | .missingPayload => "Malformed literal"
  | .invalidTarget => "Invalid assignment target"
  | .tooManyParameters => s!"Can't have more than {maxArguments} parameters"
  | .tooManyArguments => s!"Can't have more than {maxArguments} function call arguments"

/-- After a fault that leaves the reader lost, nothing is reported until it has found the next statement. -/
def Fault.needsRecovery : Fault → Bool
  | .missing _ | .missingExpression | .missingPayload => true
  | .invalidTarget | .tooManyParameters | .tooManyArguments => false

end Scriptlet.Grammar
