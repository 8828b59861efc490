import Lisplet.Decimal.Numeral
import Lisplet.Failure
import Lisplet.Token

/-!
# Reading data

Tokens are read into data from left to right.  The lists that are still open are kept on
a stack, each with the data read so far, so that one pass over the tokens does all the
work.  A reading says how many tokens it left, also when it failed: a stray closing
parenthesis is used up, and so are all tokens when the text ends too early.
-/

namespace Lisplet

/-- What a token other than a parenthesis denotes: a number if it is a numeral, one of
the two booleans, the empty list if it is empty, and otherwise the symbol of that
name. -/
def Datum.ofToken (token : String) : Datum :=
  match Numeral.ofChars? token.toList with
  | some numeral => .number (.real numeral.toDouble)
  | none =>
    if token = "#t" then .boolean true
    else if token = "#f" then .boolean false
    else if token = "" then .list []
    else .symbol token

/-- The lists that are open, innermost first, each with its elements so far, last one
first. -/
abbrev OpenLists := List (List Datum)

/-- Reads one datum.  `room` more lists may be opened; an element of the innermost one
needs room as a list would. -/
def readFrom (room : Nat) (opened : OpenLists) :
    List String → Except Failure Datum × List String
  | [] => (.error .unexpectedEnd, [])
  | token :: tokens =>
    if token = Token.closing then
      match opened with
      | [] => (.error .unexpectedClose, tokens)
      | [items] => (.ok (.list items.reverse), tokens)
      | items :: outer :: opened =>
        readFrom (room + 1) ((.list items.reverse :: outer) :: opened) tokens
    else
      match room with
      | 0 => (.error .depthExceeded, token :: tokens)
      | room + 1 =>
        if token = Token.opening then readFrom room ([] :: opened) tokens
        else
          let datum := Datum.ofToken token
          match opened with
          | [] => (.ok datum, tokens)
          | items :: opened => readFrom (room + 1) ((datum :: items) :: opened) tokens

/-- Reads the datum at the front of some tokens; lists may be nested less deeply than
`limit`. -/
def readDatum (limit : Nat) (tokens : List String) : Except Failure Datum × List String :=
  readFrom limit [] tokens

theorem length_readFrom_le (room : Nat) (opened : OpenLists) (tokens : List String) :
    (readFrom room opened tokens).2.length ≤ tokens.length := by
  induction tokens generalizing room opened with
  | nil => simp [readFrom]
  | cons token tokens ih =>
    unfold readFrom
    split
    · split
      · simp
      · simp
      · exact Nat.le_succ_of_le (ih ..)
    · split
      · simp
      · split
        · exact Nat.le_succ_of_le (ih ..)
        · simp only []
          split
          · simp
          · exact Nat.le_succ_of_le (ih ..)

/-- Reading a datum uses up at least one token. -/
theorem length_readDatum_lt {limit : Nat} {tokens rest : List String} {datum : Datum}
    (h : readDatum limit tokens = (.ok datum, rest)) : rest.length < tokens.length := by
  cases tokens with
  | nil => simp [readDatum, readFrom] at h
  | cons token tokens =>
    unfold readDatum readFrom at h
    split at h
    · simp at h
    · split at h
      · simp at h
      · split at h
        · rename_i room _
          have shorter := length_readFrom_le room [[]] tokens
          rw [h] at shorter
          exact Nat.lt_succ_of_le shorter
        · simp only [Prod.mk.injEq] at h
          simp [← h.2]

/-- A reading of all the forms in some tokens: the forms before the first failure, the
failure if there is one, and the tokens that were left then. -/
structure Reading where
  forms : List Datum
  failure : Option Failure
  rest : List String

/-- Reads forms to the end of the tokens or to the first failure. -/
def readForms (limit : Nat) (tokens : List String) : Reading :=
  if tokens.isEmpty then ⟨[], none, []⟩
  else
    match step : readDatum limit tokens with
    | (.error failure, rest) => ⟨[], some failure, rest⟩
    | (.ok form, rest) =>
      have := length_readDatum_lt step
      let later := readForms limit rest
      { later with forms := form :: later.forms }
termination_by tokens.length

/-- Reads all the forms of a source text; an absent text is a failure. -/
def readSource (limit : Nat) : Option String → Reading
  | none => ⟨[], some .noCode, []⟩
  | some source => readForms limit (Token.split source.toList)

end Lisplet
