import ForceTry.Trivia.Basic

/-!
# Tokens

A token is a kind and a literal text, with the trivia around it.  Tokens are plain values; which
of two equal tokens of a tree is meant is the tree's business.
-/

namespace ForceTry

inductive TokenKind where
  | keyword
  | identifier
  | integerLiteral
  | floatLiteral
  | stringLiteral
  | operatorSign
  | exclamationMark
  | postfixQuestionMark
  | leftBrace
  | rightBrace
  | leftParen
  | rightParen
  | leftSquare
  | rightSquare
  | comma
  | colon
  | semicolon
  | period
  | atSign
  | poundKeyword
  | editorPlaceholder
  | unknown
  | endOfFile
  deriving DecidableEq, Repr

namespace TokenKind

def name : TokenKind → String
  | keyword => "keyword"
  | identifier => "identifier"
  | integerLiteral => "integer_literal"
  | floatLiteral => "float_literal"
  | stringLiteral => "string_literal"
  | operatorSign => "operator"
  | exclamationMark => "exclamation_mark"
  | postfixQuestionMark => "postfix_question_mark"
  | leftBrace => "left_brace"
  | rightBrace => "right_brace"
  | leftParen => "left_paren"
  | rightParen => "right_paren"
  | leftSquare => "left_square"
  | rightSquare => "right_square"
  | comma => "comma"
  | colon => "colon"
  | semicolon => "semicolon"
  | period => "period"
  | atSign => "at_sign"
  | poundKeyword => "pound_keyword"
  | editorPlaceholder => "editor_placeholder"
  | unknown => "unknown"
  | endOfFile => "end_of_file"

def all : List TokenKind :=
  [keyword, identifier, integerLiteral, floatLiteral, stringLiteral, operatorSign,
   exclamationMark, postfixQuestionMark, leftBrace, rightBrace, leftParen, rightParen, leftSquare,
   rightSquare, comma, colon, semicolon, period, atSign, poundKeyword, editorPlaceholder, unknown,
   endOfFile]

def ofName? (s : String) : Option TokenKind := all.find? fun k => k.name == s

def opens : TokenKind → Bool
  | leftParen | leftSquare => true
  | _ => false

def closes : TokenKind → Bool
  | rightParen | rightSquare => true
  | _ => false

def marksTry : TokenKind → Bool
  | exclamationMark | postfixQuestionMark => true
  | _ => false

end TokenKind

def keywords : List String :=
  ["any", "as", "associatedtype", "async", "await", "break", "case", "catch", "class", "continue",
   "default", "defer", "deinit", "do", "else", "enum", "extension", "fallthrough", "false",
   "fileprivate", "final", "for", "func", "guard", "if", "import", "in", "init", "inout",
   "internal", "is", "let", "mutating", "nil", "open", "operator", "override", "private",
   "protocol", "public", "repeat", "rethrows", "return", "self", "Self", "some", "static",
   "struct", "subscript", "super", "switch", "throw", "throws", "true", "try", "typealias", "var",
   "where", "while"]

def isReserved (t : Text) : Bool := keywords.any fun k => k.toList == t

/-- A leaf of the tree: a kind and a text with the trivia before and behind it. -/
structure Token where
  kind : TokenKind
  text : Text
  leading : Trivia
  trailing : Trivia
  deriving DecidableEq, Repr

namespace Token

def code (t : Token) : Text := t.leading.code ++ t.text ++ t.trailing.code

def isKeyword (t : Token) (word : String) : Bool := t.kind == .keyword && t.text == word.toList

def keyword? (text : Text) (leading trailing : Trivia) : Option Token :=
  if isReserved text then some ⟨.keyword, text, leading, trailing⟩ else none

def notKeywordMessage (text : Text) : Text := Text.ofString "Not a keyword: " ++ text.quoted

def leftBrace (leading trailing : Trivia) : Token := ⟨.leftBrace, ['\x7b'], leading, trailing⟩

def rightBrace (leading trailing : Trivia) : Token := ⟨.rightBrace, ['\x7d'], leading, trailing⟩

def defaultPlaceholder : Text := ['<', '#', 'c', 'o', 'd', 'e', '#', '>']

def placeholder (text : Text) (leading trailing : Trivia) : Token :=
  ⟨.editorPlaceholder, text, leading, trailing⟩

def describe (t : Token) : Text :=
  Text.ofString s!"Token({t.kind.name.toUpper}, " ++ t.text.quoted ++ [')']

end Token
end ForceTry
