import ApiContract.Contract.Basic
import ApiContract.Doc.Block
import ApiContract.Doc.Inline
import ApiContract.Text.Wrap

/-! # Comments

The lines of a documentation comment: a description with its blocks as tags, and
for an operation the list of the reasons for which it may fail.
-/
namespace ApiContract.Doc

def wrapWidth : Nat := 76

def wrapped (text : List Char) : List String := (Text.wrap wrapWidth text).map String.ofList

def listItem (item : Line) : Outcome (List String) := do
  let content ← inlineChars item
  pure (wrapped (tagged "li" content))

/-- The lines of a code block: the first follows its tag, the closing tag stands alone. -/
def codeLines : List Line → List String
  | [] => ["<code>", "</code>"]
  | first :: rest =>
    ("<code>" ++ String.ofList (escape first)) ::
      (rest.map fun l => String.ofList (escape l)) ++ ["</code>"]

def blockLines : Block → Outcome (List String)
  | .paragraph text => do
    let content ← inlineChars text
    pure ("<p>" :: wrapped content ++ ["</p>"])
  | .list items => do
    let lines ← items.mapM listItem
    pure ("<ul>" :: lines.flatten ++ ["</ul>"])
  | .code lines => .ok ("<pre>" :: codeLines lines ++ ["</pre>"])

def descriptionLines (text : String) : Outcome (List String) := do
  let lines ← (blocks (linesOf text.toList)).mapM blockLines
  pure lines.flatten

/-- The lines of a description; one that says nothing has none. -/
def renderDescription (text : Tree) : Outcome (List String) :=
  if text.isTruthy then do
    let t ← need .illTyped text.text?
    descriptionLines t
  else .ok []

/-- A failure has a code of the four or five hundreds and a description. -/
def isFailureCode (code : String) : Bool :=
  code.toList.head? == some '4' || code.toList.head? == some '5'

structure FailureReason where
  code : String
  condition : List Char

def failureReason? (r : Response) : Outcome (Option FailureReason) :=
  if isFailureCode r.code then do
    let text ← need .illTyped r.description.text?
    let condition := Text.strip text.toList
    pure (if condition.isEmpty then none else some ⟨r.code, condition⟩)
  else .ok none

def failureItem (reason : FailureReason) : Outcome (List String) := do
  let condition ← inlineChars (Text.dropTrailing (· == '.') reason.condition)
  let status := " (HTTP error ".toList ++ tagged "code" reason.code.toList ++ [')']
  pure (wrapped (tagged "li" (condition ++ status)))

/-- The list of failures; none when no response is one. -/
def failureList (responses : List Response) : Outcome (List String) := do
  let reasons := (← responses.mapM failureReason?).filterMap id
  if reasons.isEmpty then pure []
  else
    let items ← reasons.mapM failureItem
    pure (["<p>", "This operation may fail for one of the following reasons:", "</p>", "<ul>"]
      ++ items.flatten ++ ["</ul>"])

/-- Whether a text lists its failures itself; only a text or a collection can tell. -/
def listsFailures (text : Tree) : Outcome Bool :=
  match text.text? with
  | some t => .ok (Text.contains "HTTP error".toList t.toList)
  | none => do
    let members ← need .illTyped text.members?
    pure (members.any fun t => t.text? == some "HTTP error")

def operationComment (description summary : Tree) (responses : List Response) :
    Outcome (List String) := do
  let text := description.orElse summary
  let lines ← renderDescription text
  if ← listsFailures text then pure lines
  else
    let failures ← failureList responses
    pure (lines ++ failures)

end ApiContract.Doc
