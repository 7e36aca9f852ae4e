import Onboarding.Assistant.Editor
import Onboarding.Element.References
import Onboarding.Flow.Session

/-!
# Onboarding — the console

The console drives one session by lines of text. A line is a command and its
arguments, cut at the first blank. What a command says goes to the output, where
JSON stands, or to the notices. After a command that may change the screen the
screen is shown, unless the command failed.

`Console.step` handles one line and says whether the console goes on. It ends on
request and when the flow is over.
-/

namespace Onboarding

/-- Something the console says. -/
inductive Saying where
  /-- Lines for the output. -/
  | output (text : String)
  /-- A line of notice. -/
  | notice (text : String)
deriving DecidableEq

/-- A session that is driven by lines. -/
structure Console where
  session : Session
  /-- The assistant, if there is one. -/
  assistant : Option Assistant := none
  /-- The editors of the screens that were edited. -/
  editors : Table Editor := ∅

namespace Console

/-- The list of commands. -/
def help : String :=
  "Commands: show | tap <id> | input <id> <text> | next | back | skip | skip-all " ++
    "| goto <screen> | vars | assist <prompt> | quit"

/-- The notice of an assistant that cannot be asked. -/
def assistRefusal : String := "assist is not configured or no screen is active"

/-! ## Saying things -/

/-- The screen that is shown, or the state of a flow that shows none. -/
def screenSaying (s : Session) : Saying :=
  match s.render? with
  | some rendered => .output rendered.toJson.indentedText
  | none => .notice ("-- flow is " ++ s.stage.text)

/-- What the console says of a milestone. -/
def milestoneSayings : Milestone → List Saying
  | .started n => [.notice ("-- started with " ++ FetchError.numberText n ++ " screens")]
  | .screenViewed id index =>
    [.notice ("-- screen " ++ FetchError.numberText index ++ ": " ++ id)]
  | .completed payload =>
    [.notice "-- completed", .output (Json.ofTable payload).indentedText]
  | .abandoned id => [.notice ("-- abandoned at " ++ id.getD "")]

/-- What the console says of what happened from one session to the next. -/
def newSayings (before after : Session) : List Saying :=
  (after.journal.milestones.drop before.journal.milestones.length).flatMap milestoneSayings

/-! ## Commands -/

/-- What a line asks for. -/
inductive Command where
  | nothing
  | view
  | tap (id : String)
  | input (id text : String)
  | next
  | back
  | skip
  | leave
  | goto (id : String)
  | vars
  | assist (prompt : String)
  | quit
  | unknown
deriving DecidableEq

/-- A text cut at its first blank. -/
def cutAtBlank (s : List Char) : List Char × List Char :=
  match Text.splitFirst? [' '] s with
  | some parts => parts
  | none => (s, [])

/-- The command of a line. -/
def Command.read (line : String) : Command :=
  let (word, rest) := cutAtBlank (Text.trim line.toList)
  match String.ofList word with
  | "" => nothing
  | "show" => view
  | "tap" => tap (String.ofList (Text.trim rest))
  | "input" =>
    -- the text keeps its blanks
    let (id, text) := cutAtBlank rest
    input (String.ofList id) (String.ofList text)
  | "next" => next
  | "back" => back
  | "skip" => skip
  | "skip-all" => leave
  | "goto" => goto (String.ofList (Text.trim rest))
  | "vars" => vars
  | "assist" => assist (String.ofList rest)
  | "quit" | "exit" => quit
  | _ => unknown

/-- Whether the screen is shown after the command. -/
def Command.showsScreen : Command → Bool
  | tap _ | next | back | skip | goto _ => true
  | _ => false

/-- The editor of a screen. A new one knows the screen's elements and their variables. -/
def editorOf (c : Console) (screen : Screen) : Editor :=
  (c.editors.get? screen.id).getD
    { tree := screen.roots, variableNames := (Element.variablesOf screen.roots).keys }

/-- Ask the assistant about the screen that is shown. -/
def ask (c : Console) (prompt : String) : Console × List Saying :=
  match c.assistant, c.session.shownScreen? with
  | some endpoint, some screen =>
    let (editor, kinds, result) := (c.editorOf screen).send endpoint prompt
    ({ c with editors := c.editors.insert screen.id editor },
      kinds.map (fun kind => .notice ("   (" ++ kind.name ++ "...)")) ++
      match result with
      | .ok reply => [.output reply.text, .output (Element.forestToJson editor.tree).indentedText]
      | .error e => [.notice ("assist failed: " ++ e.message)])
  | _, _ => (c, [.notice assistRefusal])

/-- The session after an operation, with what it says of itself and, if the operation failed,
the error. -/
def report (c : Console) (s : Session) (failure : Option SessionError) (showsScreen : Bool) :
    Console × List Saying :=
  let said := newSayings c.session s
  ({ c with session := s },
    match failure with
    | some e => said ++ [.notice ("error: " ++ e.message)]
    | none => if showsScreen then said ++ [screenSaying s] else said)

/-- The error of a result. -/
def failure? {α : Type} : Except SessionError α → Option SessionError
  | .ok _ => none
  | .error e => some e

/-- Run a command. -/
def run (c : Console) (command : Command) : Console × List Saying :=
  let s := c.session
  match command with
  | .nothing | .quit => (c, [])
  | .view => (c, [screenSaying s])
  | .tap id =>
    let (s, result) := s.dispatch id
    c.report s (failure? result) true
  | .input id text =>
    let (s, result) := s.enterText id text
    c.report s (failure? result) false
  | .next => c.report s.next none true
  | .back => c.report s.back none true
  | .skip => c.report s.skip none true
  | .leave => c.report s.leave none false
  | .goto id => c.report (s.goTo id) none true
  | .vars => (c, [.output (Json.ofTable s.allVariables).indentedText])
  | .assist prompt => c.ask prompt
  | .unknown => (c, [.notice help])

/-- Handle a line: the console after it, what it says, and whether it goes on. -/
def step (c : Console) (line : String) : Console × List Saying × Bool :=
  let command := Command.read line
  let (next, said) := c.run command
  (next, said, command ≠ .quit && !next.session.stage.isOver)

/-- Handle lines until the console ends. -/
def runLines (c : Console) : List String → Console × List Saying
  | [] => (c, [])
  | line :: rest =>
    match c.step line with
    | (next, said, true) =>
      let (last, more) := runLines next rest
      (last, said ++ more)
    | (next, said, false) => (next, said)

end Console

end Onboarding
