/-!
# Argument tokens

How one command line argument reads by its dashes: a bare word, a long option with or without a
value, a run of short options, or the mark after which nothing is an option. A lone dash is a
word.
-/

namespace FrameFeed

namespace Arguments

/-- One argument, read by its dashes. -/
inductive Token
  /-- `--`: all that follows is words. -/
  | escape
  /-- `--name` or `--name=value`. -/
  | long (name : String) (value : Option String)
  /-- `-abc`, of which there is at least the `a`. -/
  | short (letters : List Char)
  | word
  deriving DecidableEq, Repr

namespace Token

/-- A long option cut at its first equals sign. -/
def ofLong (cs : List Char) : Token :=
  let name := String.ofList (cs.takeWhile (· ≠ '='))
  match cs.dropWhile (· ≠ '=') with
  | [] => .long name none
  | _ :: value => .long name (some (String.ofList value))

/-- An argument as a token. -/
def ofChars : List Char → Token
  | ['-', '-'] => .escape
  | '-' :: '-' :: cs => ofLong cs
  | '-' :: c :: cs => .short (c :: cs)
  | _ => .word

/-- An argument as a token. -/
def of (arg : String) : Token := ofChars arg.toList

end Token

/-- Whether the rest of a number is well formed, given whether it may start with a digit only and
whether a point or an exponent may still come. An exponent needs something after it. -/
def numberTail (start point exponent : Bool) : List Char → Bool
  | [] => true
  | c :: cs =>
    if c.isDigit then numberTail false point exponent cs
    else if c = '.' ∧ point ∧ ¬start then numberTail false false exponent cs
    else if (c = 'e' ∨ c = 'E') ∧ exponent ∧ ¬start then
      !cs.isEmpty && numberTail false false false cs
    else false

/-- Whether letters after a dash look like a number: digits, at most one point and after it at
most one exponent mark, neither of them first. -/
def numberLike (letters : List Char) : Bool := numberTail true true true letters

end Arguments

end FrameFeed
