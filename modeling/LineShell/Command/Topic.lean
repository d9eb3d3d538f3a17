import LineShell.Text.Basic

/-!
# Help topics

* `Topic`: the help on one command.
* `Topic.text`: the topic as it is printed.
* `Topic.overview`: the list of all topics with the operators that join commands.
-/

namespace LineShell

structure Topic where
  name : Text
  summary : Text
  usage : Text
  details : List Text := []
deriving DecidableEq, Repr

namespace Topic

def indented (line : Text) : Text := ' ' :: ' ' :: line

def detailLines (topic : Topic) : List Text :=
  if topic.details.isEmpty then [] else [] :: topic.details.map indented

def text (topic : Topic) : Text :=
  Text.ofLines
    ([topic.name ++ " - ".toList ++ topic.summary, [], "Usage: ".toList ++ topic.usage]
      ++ topic.detailLines)

/-- The width of the column of names. -/
def nameWidth : Nat := 10

/-- The name, filled up with spaces, and the summary. -/
def summaryLine (topic : Topic) : Text :=
  indented (topic.name.rightpad nameWidth ' ' ++ ' ' :: topic.summary)

def overview (topics : List Topic) : Text :=
  Text.ofLines
    (["chainsh - a line-oriented command interpreter".toList,
      [],
      "Commands are separated by `;`, `&&` (run if the previous succeeded)".toList,
      "and `||` (run if the previous failed).".toList,
      [],
      "Builtin commands:".toList,
      []]
      ++ topics.map summaryLine
      ++ [[], "Use 'help COMMAND' for more information.".toList])

end Topic

end LineShell
