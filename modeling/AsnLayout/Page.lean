import AsnLayout.Token

/-!
# Highlighted pages

Tokens are written as HTML: those of a colour in a span of their class, all others as they are.
What has a meaning in HTML is escaped, so the text can be read back from the page.
-/

set_option autoImplicit false

namespace AsnLayout

namespace Page

def escapeChar (c : Char) : Text :=
  match c with
  | '&' => "&amp;".toList
  | '<' => "&lt;".toList
  | '>' => "&gt;".toList
  | '\'' => "&#39;".toList
  | '"' => "&#34;".toList
  | c => [c]

def escape (text : Text) : Text := text.flatMap escapeChar

def classOf? : TokenKind → Option String
  | .comment => some "comment"
  | .string => some "string"
  | .number => some "number"
  | .keyword => some "keyword"
  | .operator => some "operator"
  | .tag => some "tag"
  | .punctuation => some "punctuation"
  | .identifier | .whitespace | .newline | .other | .finish => none

def token (token : Token) : Text :=
  match classOf? token.kind with
  | none => escape token.text
  | some name =>
    "<span class=\"asn1-".toList ++ name.toList ++ "\">".toList ++ escape token.text ++
      "</span>".toList

def block (text : Text) : Text :=
  "<pre class=\"asn1-block\"><code class=\"language-asn1\">".toList ++
    (Text.tokens text).flatMap token ++ "</code></pre>\n".toList

def styleSheet : String :=
  ".asn1-block \x7b background: #f6f8fa; padding: 1em; \x7d\n" ++
  ".asn1-comment \x7b color: #6a737d; font-style: italic; \x7d\n" ++
  ".asn1-string \x7b color: #032f62; \x7d\n" ++
  ".asn1-number \x7b color: #005cc5; \x7d\n" ++
  ".asn1-keyword \x7b color: #d73a49; font-weight: bold; \x7d\n" ++
  ".asn1-operator \x7b color: #e36209; \x7d\n" ++
  ".asn1-tag \x7b color: #6f42c1; \x7d\n" ++
  ".asn1-punctuation \x7b color: #24292e; \x7d\n"

def head (title : Text) : Text :=
  "<!DOCTYPE html>\n<html>\n<head>\n<meta charset=\"utf-8\">\n<title>".toList ++ escape title ++
    "</title>\n<style>\n".toList ++ styleSheet.toList ++ "</style>\n</head>\n<body>\n".toList

def foot : Text := "</body>\n</html>\n".toList

end Page

namespace Text

def highlight (text : Text) (standalone : Bool := false) (title : Text := "ASN.1".toList) : Text :=
  (if standalone then Page.head title ++ Page.block text ++ Page.foot
   else Page.block text) ++ ['\n']

end Text

end AsnLayout
