import Lisplet.Console.Report

/-!
# The dialogue

Input lines are collected until their parentheses balance, so that a form may go over
several lines.  A surplus of closing parentheses completes a chunk as well: more lines
cannot mend it.

The dialogue asks for a line, collects lines into chunks, runs every chunk and shows its
report.  A failure or an interrupt never ends it; only the end of the input does, with
an empty line shown last.  An interrupt drops the lines that are pending.

The user may also break off the evaluation of a chunk, at any form and in the middle of
it, which leaves the store as it is then.
-/

namespace Lisplet

namespace Console

/-! ## Chunks -/

/-- Open minus closing parentheses, or `-1` if some parenthesis closes nothing. -/
def balance (cs : List Char) : Int :=
  go 0 cs
where
  /-- Reads on with this many parentheses open. -/
  go (opened : Nat) : List Char → Int
    | [] => opened
    | c :: cs =>
      if c == '(' then go (opened + 1) cs
      else if c == ')' then
        match opened with
        | 0 => -1
        | opened + 1 => go opened cs
      else go opened cs

/-- One item of input: a line, or an interrupt while a line is awaited. -/
inductive Input where
  | line (text : String)
  | interrupt
deriving DecidableEq

def joinLines (lines : List String) : String := String.intercalate "\n" lines

def isComplete (lines : List String) : Bool := balance (joinLines lines).toList ≤ 0

inductive ChunkResult where
  | chunk (text : String)
  | interrupted
  | endOfInput
deriving DecidableEq

/-- Collects a chunk, given the lines that are there already.  Also gives how many items
of input were asked for; the end of the input counts as one. -/
def collectChunk (pending : List String) : List Input → ChunkResult × Nat
  | [] => (.endOfInput, 1)
  | .interrupt :: _ => (.interrupted, 1)
  | .line text :: inputs =>
    let lines := pending ++ [text]
    if isComplete lines then (.chunk (joinLines lines), 1)
    else
      let (result, asked) := collectChunk lines inputs
      (result, asked + 1)

/-! ## What the user does and sees -/

/-- Where the user breaks off the evaluation of a chunk. -/
structure Breach where
  /-- How many forms of the chunk have been evaluated by then. -/
  before : Nat
  /-- The store that the evaluation of the next one has come to. -/
  store : Store

/-- An item of input, and whether the user breaks off the evaluation that follows. -/
structure Item where
  input : Input
  breach : Option Breach

end Console

/-- What is seen of a dialogue: prompts, lines shown, and notes for the log. -/
inductive Event where
  | prompt (text : String)
  | write (text : String)
  | note (content : Note)
deriving DecidableEq

namespace Event

/-- What an event writes to the output: a prompt stays on its line. -/
def outputText : Event → String
  | prompt text => text
  | write text => text ++ "\n"
  | .note _ => ""

def note? : Event → Option Note
  | .note content => some content
  | _ => none

end Event

open Console

namespace Interpreter

/-- Breaks off the evaluation of a form, which leaves a store as it is then. -/
def abandon (store : Store) (form : Datum) (interpreter : Interpreter) :
    Transcript String × Interpreter :=
  match form.write interpreter.limit with
  | .error tooDeep => (⟨[], [], .failed tooDeep⟩, interpreter)
  | .ok written => (⟨[written], [], .interrupted⟩, { interpreter with store })

/-- A run over a text up to a form whose evaluation the user breaks off, or to the end of
a text without that many forms. -/
def runUntil (interpreter : Interpreter) (breaksOff : Datum → Bool) (breach : Breach)
    (source : Option String) : Transcript String × Interpreter :=
  let forms := (readSource interpreter.limit source).forms
  match forms[breach.before]? with
  | none => interpreter.run breaksOff source
  | some form =>
    let (transcript, after) := Transcript.andThen
      (evaluateForms (·.datum.write interpreter.limit) breaksOff (forms.take breach.before) none
        interpreter)
      (abandon breach.store form)
    ({ transcript with results := transcript.results.filter (!·.isEmpty) }, after)

def runWith (interpreter : Interpreter) (breaksOff : Datum → Bool) (breach : Option Breach)
    (source : Option String) : Transcript String × Interpreter :=
  match breach with
  | none => interpreter.run breaksOff source
  | some breach => interpreter.runUntil breaksOff breach source

/-- What a dialogue shows of a chunk, and the interpreter after it.  A blank chunk is
passed over. -/
def reply (interpreter : Interpreter) (breaksOff : Datum → Bool) (breach : Option Breach)
    (chunk : String) : List Event × Interpreter :=
  if Text.isAllBlank chunk then ([], interpreter)
  else
    let (transcript, after) := interpreter.runWith breaksOff breach (some chunk)
    let shown := match transcript.ending with
      | .interrupted => transcript.report ++ [""]
      | _ => transcript.report
    (transcript.notes.map .note ++ shown.map .write, after)

end Interpreter

/-- The two prompts: for the first line of a chunk, and for the later ones. -/
structure Prompts where
  first : String
  continuation : String

/-- A dialogue between two items of input. -/
structure Dialogue where
  interpreter : Interpreter
  prompts : Prompts
  /-- The forms at which the user interrupts their evaluation. -/
  breaksOff : Datum → Bool
  /-- The lines of the chunk so far. -/
  pending : List String

namespace Dialogue

def prompt (dialogue : Dialogue) : String :=
  if dialogue.pending.isEmpty then dialogue.prompts.first else dialogue.prompts.continuation

/-- Takes one item of input; the user may break off the evaluation that follows. -/
def receive (dialogue : Dialogue) (item : Item) : List Event × Dialogue :=
  match item.input with
  | .interrupt => ([.write ""], { dialogue with pending := [] })
  | .line text =>
    let lines := dialogue.pending ++ [text]
    if isComplete lines then
      let (shown, interpreter) :=
        dialogue.interpreter.reply dialogue.breaksOff item.breach (joinLines lines)
      (shown, { dialogue with interpreter, pending := [] })
    else ([], { dialogue with pending := lines })

/-- The whole dialogue on some items of input, to its end. -/
def attend (dialogue : Dialogue) : List Item → List Event × Dialogue
  | [] => ([.prompt dialogue.prompt, .write ""], dialogue)
  | item :: items =>
    let (shown, next) := dialogue.receive item
    let (later, last) := next.attend items
    (.prompt dialogue.prompt :: (shown ++ later), last)

/-- Takes one item of input, and lets the evaluation that follows go on to its end. -/
def feed (dialogue : Dialogue) (input : Input) : List Event × Dialogue :=
  dialogue.receive ⟨input, none⟩

def run (dialogue : Dialogue) (inputs : List Input) : List Event × Dialogue :=
  dialogue.attend (inputs.map (⟨·, none⟩))

end Dialogue

end Lisplet
