import LineShell.Status
import LineShell.Text.Basic

/-!
# Chains of commands

A line is cut at `&&`, `||` and `;` into links, in the order in which they run. A lone `&`
or `|` stays in the text of its link: such a mark can only come out of a variable.

* `Separator.admits`: whether a link runs, given the status of the last command that ran.
* `splitChain`: the links of a line, blanks included.
* `joinChain`: the line that a chain was cut from.
-/

namespace LineShell

/-- How a link is joined to the one before it. -/
inductive Separator where
  | first
  | sequential
  | and
  | or
deriving DecidableEq, Repr

namespace Separator

def admits : Separator → Status → Bool
  | first, _ => true
  | sequential, _ => true
  | and, last => last == 0
  | or, last => last != 0

def text : Separator → Text
  | first => []
  | sequential => [';']
  | and => ['&', '&']
  | or => ['|', '|']

end Separator

structure Link where
  separator : Separator
  text : Text
deriving DecidableEq, Repr

/-- Put a character in front of the text of the first link. -/
def prependChar (c : Char) : List Link → List Link
  | [] => []
  | link :: chain => { link with text := c :: link.text } :: chain

/-- The links of a line whose first link has the given separator. -/
def splitAfter (separator : Separator) : Text → List Link
  | [] => [⟨separator, []⟩]
  | '&' :: '&' :: rest => ⟨separator, []⟩ :: splitAfter .and rest
  | '|' :: '|' :: rest => ⟨separator, []⟩ :: splitAfter .or rest
  | ';' :: rest => ⟨separator, []⟩ :: splitAfter .sequential rest
  | c :: rest => prependChar c (splitAfter separator rest)

def splitChain (line : Text) : List Link := splitAfter .first line

/-- Each link written as its operator followed by its text. -/
def joinChain (chain : List Link) : Text :=
  chain.flatMap (fun link => link.separator.text ++ link.text)

end LineShell
