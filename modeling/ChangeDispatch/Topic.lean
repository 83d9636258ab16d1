import ChangeDispatch.Error
import ChangeDispatch.Text.Blank

/-!
# Topics and subscription names

A topic is one or more non-empty tokens joined by dots; no token holds a blank or one
of the wildcards `*` and `>`. A subscription name is a topic of a single token. Each
topic has a dead-letter topic, formed by a suffix on its last token.
-/
namespace ChangeDispatch

namespace Topic

def defaultChange : String := "workspace.events"
def defaultAck : String := "workspace.events.ack"
def defaultAckSubscription : String := "workspace-dispatch-ack"
def deadLetterSuffix : String := "-dlq"

/-- Where messages of `topic` go that no consumer could handle. -/
def deadLetter (topic : String) : String :=
  topic ++ deadLetterSuffix

/-- Blanks and wildcards: the characters that no token may hold. -/
def isReserved (c : Char) : Bool :=
  Text.isBlank c || c == '*' || c == '>'

/-- The parts of `cs` between its dots; there is one part more than dots. -/
def tokens : List Char → List (List Char)
  | [] => [[]]
  | c :: cs =>
    if c = '.' then [] :: tokens cs
    else match tokens cs with
      | [] => [[c]]
      | t :: ts => (c :: t) :: ts

/-- The first defect of a token, if it has one. -/
def tokenDefect? (topic : String) (token : List Char) : Option DispatchError :=
  if token.isEmpty then some (.configuration s!"topic has an empty token: {topic}")
  else if token.any isReserved then
    some (.configuration s!"topic must not contain whitespace or wildcards: {topic}")
  else none

/-- Check that messages can be published to `topic`. -/
def validate (topic : String) : Except DispatchError Unit :=
  if topic.isEmpty then .error (.configuration "topic is empty")
  else match (tokens topic.toList).findSome? (tokenDefect? topic) with
    | some defect => .error defect
    | none => .ok ()

end Topic

namespace SubscriptionName

/-- Check that `name` can name a durable subscription. -/
def validate (name : String) : Except DispatchError Unit :=
  if name.isEmpty || name.toList.any (fun c => Topic.isReserved c || c == '.') then
    .error (.configuration ("invalid subscription name: " ++ Text.quoted name))
  else .ok ()

end SubscriptionName

end ChangeDispatch
