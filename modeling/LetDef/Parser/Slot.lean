import LetDef.Token

/-!
# Slots

The places of the grammar where only certain tokens fit, with what belongs there and what is said
when it is missing.
-/

namespace LetDef.Parser

/-- What a slot takes: a kind of token, or any token with a text. -/
inductive Pattern where
  | kind (k : Token.Kind)
  | text (s : String)
deriving DecidableEq, Repr

/-- Whether the token fits the pattern. -/
def Pattern.fits (t : Token) : Pattern → Bool
  | .kind k => t.kind == k
  | .text s => t.lexeme == s

/-- The pattern in messages. -/
def Pattern.describe : Pattern → String
  | .kind k => k.name
  | .text s => "'" ++ s ++ "'"

/-- The places of the grammar where only certain tokens fit. -/
inductive Slot where
  | topLevel
  | fieldName | fieldEnd
  | typeName
  | methodName | parametersOpen | parameterName | parameterType | parametersClose | returnType
  | methodDo | methodEnd
  | blockEnd (terminator : String)
  | assignmentEnd | performEnd
  | declareName | declareEnd
  | ifDo | ifEnd
  | forOpen | initializerEquals | initializerEnd | conditionEnd
  | incrementTarget | incrementEquals | forClose | forDo | forEnd
  | whileDo | whileEnd
  | giveBackEnd
  | memberName | groupClose | argumentsClose
  | primary
deriving DecidableEq, Repr

namespace Slot

/-- What belongs into the slot. -/
def pattern : Slot → Pattern
  | .topLevel => .text "DEF"
  | .fieldName | .typeName | .methodName | .parameterName | .parameterType | .returnType
  | .declareName | .memberName => .kind .identifier
  | .fieldEnd | .assignmentEnd | .performEnd | .declareEnd | .initializerEnd | .conditionEnd
  | .giveBackEnd => .text ";"
  | .parametersOpen | .forOpen => .text "("
  | .parametersClose | .forClose | .groupClose | .argumentsClose => .text ")"
  | .methodDo | .ifDo | .forDo | .whileDo => .text "DO"
  | .methodEnd | .ifEnd | .forEnd | .whileEnd => .text "END"
  | .initializerEquals | .incrementTarget | .incrementEquals => .text "="
  | .blockEnd terminator => .text terminator
  | .primary => .text "expression"

/-- What is said when the slot is not filled. -/
def message : Slot → String
  | .topLevel => "Expected a field or method declaration."
  | .fieldName => "Expected identifier in field declaration."
  | .fieldEnd => "Expected ';' after field declaration."
  | .typeName => "Expected type name after ':'."
  | .methodName => "Expected method name after 'DEF'."
  | .parametersOpen => "Expected '(' after method name."
  | .parameterName => "Expected parameter name."
  | .parameterType => "Expected parameter type name after ':'."
  | .parametersClose => "Expected ')' after parameters."
  | .returnType => "Expected return type name after ':'."
  | .methodDo => "Expected 'DO' after method signature."
  | .methodEnd => "Expected 'END' after method body."
  | .blockEnd terminator => "Expected '" ++ terminator ++ "' before the end of input."
  | .assignmentEnd => "Expected ';' after assignment."
  | .performEnd => "Expected ';' after expression."
  | .declareName => "Expected identifier in declaration."
  | .declareEnd => "Expected ';' after variable declaration."
  | .ifDo => "Expected 'DO' after if condition."
  | .ifEnd => "Expected 'END' after if statement."
  | .forOpen => "Expected '(' after 'FOR'."
  | .initializerEquals => "Expected '=' in for-loop initializer."
  | .initializerEnd => "Expected ';' after for-loop initializer."
  | .conditionEnd => "Expected ';' after for-loop condition."
  | .incrementTarget => "Invalid for-loop increment."
  | .incrementEquals => "Expected '=' in for-loop increment."
  | .forClose => "Expected ')' after for-loop clauses."
  | .forDo => "Expected 'DO' after for-loop clauses."
  | .forEnd => "Expected 'END' after for-loop body."
  | .whileDo => "Expected 'DO' after while condition."
  | .whileEnd => "Expected 'END' after while-loop body."
  | .giveBackEnd => "Expected ';' after return value."
  | .memberName => "Expected identifier after '.'."
  | .groupClose => "Expected ')' after expression."
  | .argumentsClose => "Expected ')' after function arguments."
  | .primary => "Expected primary expression."

end Slot

end LetDef.Parser
