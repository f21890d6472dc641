import TemplateExpr.Token.Basic

namespace TemplateExpr

inductive Expectation where
  | expression
  | propertyName
  | colon
  | closeIndex
  | closeParen
  | closeArray
  | noArguments
  | onlyNamedCalls
  | nothingMore
  deriving DecidableEq

def Expectation.message : Expectation → String
  | .expression => "expected an expression"
  | .propertyName => "expected property name after `.`"
  | .colon => "expected `:` in conditional expression"
  | .closeIndex => "expected `]` to close computed member access"
  | .closeParen => "expected `)` to close parenthesised expression"
  | .closeArray => "expected `]` to close array literal"
  | .noArguments => "actions take no arguments"
  | .onlyNamedCalls => "only named actions can be called"
  | .nothingMore => "unexpected trailing input"

namespace Mistake

inductive Cause where
  | missingExponent
  | nameAfterNumber
  | malformedNumber
  | unterminatedText
  | badEscape
  | reservedWord (w : String)
  | assignment
  | looseEquality
  | looseInequality
  | unsupportedOperator (c : Char)
  | unexpectedCharacter (c : Char)
  | emptyExpression
  | tooDeep (limit : Nat)
  | unexpected (expected : Expectation) (found : Token)
  deriving DecidableEq

def Cause.message : Cause → String
  | .missingExponent => "missing exponent digits"
  | .nameAfterNumber => "identifier starts immediately after numeric literal"
  | .malformedNumber => "invalid numeric literal"
  | .unterminatedText => "unterminated string literal"
  | .badEscape => "invalid unicode escape"
  | .reservedWord w => "reserved word `" ++ w ++ "` is not supported"
  | .assignment => "assignment is not supported"
  | .looseEquality => "loose equality `==` is not supported, use `===`"
  | .looseInequality => "loose inequality `!=` is not supported, use `!==`"
  | .unsupportedOperator c => "unsupported operator `" ++ String.singleton c ++ "`"
  | .unexpectedCharacter c => "unexpected character `" ++ String.singleton c ++ "`"
  | .emptyExpression => "empty expression"
  | .tooDeep limit => "expression nested deeper than " ++ limit.repr ++ " levels"
  | .unexpected expected found => expected.message ++ ", found " ++ found.describe

end Mistake

structure Mistake where
  cause : Mistake.Cause
  offset : Nat
  deriving DecidableEq

end TemplateExpr
