import Bookkeeping.Json.Number
import Bookkeeping.Json.Text
/-! Single JSON values: of an expected kind, of the wrong kind, and passed over. -/
namespace Bookkeeping.Json

def wrongKind {α : Type} (c : Char) (expected : String) : Reader α := do
  let refuse (found : Found) : Reader α := fail (.invalidType found expected)
  match c with
  | 'n' => do advance; word "ull".toList; refuse .null
  | 't' => do advance; word "rue".toList; refuse (.boolean true)
  | 'f' => do advance; word "alse".toList; refuse (.boolean false)
  | '-' => do advance; refuse (.number (← numberValue true))
  | '"' => do refuse (.text (← textValue))
  | '[' => refuse .list
  | '{' => refuse .object
  | c =>
    if Text.isDigit c then do refuse (.number (← numberValue false))
    else failNext .valueExpected

def textField (expected : String) : Reader String := do
  match ← peekValue with
  | none => failNext .endInValue
  | some '"' => textValue
  | some c => wrongKind c expected

def spelled {α : Type} (expected : String) (read : String → Except String α) : Reader α := do
  let s ← textField expected
  match read s with
  | .ok a => pure a
  | .error reason => fail (.unreadable reason)

/-- Opens a list, and closes it if it is empty; a comma that comes first is passed over. -/
def openList : Reader Unit := do
  advance
  match ← peekValue with
  | some ']' => advance
  | some ',' => do advance; discard peekValue
  | _ => pure ()

def openObject : Reader Unit := do
  advance
  if (← peekValue) = some '}' then advance

/-- A string or a number. Lists and objects are opened before they are refused. -/
def textOrNumber (expected : String) : Reader (String ⊕ Number) := do
  match ← peekValue with
  | none => failNext .endInValue
  | some '"' => return .inl (← textValue)
  | some '-' => do advance; return .inr (← numberValue true)
  | some '[' => do openList; fail (.invalidType .list expected)
  | some '{' => do openObject; fail (.invalidType .object expected)
  | some c => if Text.isDigit c then return .inr (← numberValue false) else wrongKind c expected

inductive Expectation where
  | value
  | firstOrClose
  | commaOrClose

/-- Passes over what is left of nested values: `true` stands for an open list, `false` for an open
object, the innermost first. Each step reads at least one character. -/
def skipOpen : Nat → List Bool → Expectation → Reader Unit
  | 0, _, _ => fail .endInValue
  | n + 1, stack, .value => do
    let afterScalar : Reader Unit :=
      if stack.isEmpty then pure () else skipOpen n stack .commaOrClose
    match ← peekValue with
    | none => failNext .endInValue
    | some 'n' => do advance; word "ull".toList; afterScalar
    | some 't' => do advance; word "rue".toList; afterScalar
    | some 'f' => do advance; word "alse".toList; afterScalar
    | some '-' => do advance; skipNumber; afterScalar
    | some '"' => do skipText; afterScalar
    | some '[' => do advance; skipOpen n (true :: stack) .firstOrClose
    | some '{' => do advance; skipOpen n (false :: stack) .firstOrClose
    | some c =>
      if Text.isDigit c then do skipNumber; afterScalar else failNext .valueExpected
  | n + 1, stack, after => do
    let member : Reader Unit := do
      if stack.head? = some false then do
        match ← peekValue with
        | none => failNext .endInObject
        | some '"' => skipText
        | some _ => failNext .keyExpected
        match ← peekValue with
        | none => failNext .endInObject
        | some ':' => advance
        | some _ => failNext .colonExpected
      skipOpen n stack .value
    let isList := stack.head? = some true
    match ← peekValue, after with
    | none, _ => failNext (if isList then .endInList else .endInObject)
    | some c, after =>
      if c = (if isList then ']' else '}') then do
        advance
        if stack.tail.isEmpty then pure () else skipOpen n stack.tail .commaOrClose
      else
        match after with
        | .commaOrClose =>
          if c = ',' then do advance; member
          else failNext (if isList then .listEndExpected else .objectEndExpected)
        | _ => member

def skipValue : Reader Unit := do
  skipOpen (2 * (← get).rest.length + 1) [] .value

end Bookkeeping.Json
