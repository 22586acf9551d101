import GraphQLEngine.Document.Basic
import GraphQLEngine.Document.BlockText

/-!
# The grammar of query documents

A parsing expression grammar: choices are ordered, repetitions and options are greedy and never
give back what they took.  Blanks and comments are skipped between the parts of a sequence, except
inside names, numbers, strings and types.

A rule maps the input to a node and the rest of the input, or fails.  Two faults do not make a rule
fail: a number too large for a double, and selections nested too deep.  The input carries the first
of them, in the order of the text; it counts only when the whole document matches.
-/

namespace GraphQLEngine.Grammar

/-- What is wrong with a text that matches the grammar. -/
inductive Fault where
  | numberTooLarge
  | nestedTooDeep
deriving DecidableEq, Repr

/-- The rest of the text with the position of each character, and the first fault so far. -/
structure Input where
  rest : List (Char × Position)
  fault : Option Fault

abbrev Rule (α : Type) := Input → Option (α × Input)

/-- The characters of a text with their positions: a line feed begins a line, a carriage return
goes back to the first column. -/
def locate (line column : Nat) : List Char → List (Char × Position)
  | [] => []
  | c :: cs =>
    (c, ⟨line, column⟩) ::
      (if c = '\n' then locate (line + 1) 1 cs
      else if c = '\r' then locate line 1 cs
      else locate line (column + 1) cs)

def Input.ofText (text : String) : Input := ⟨locate 1 1 text.toList, none⟩

/-- Where the rest begins. -/
def Input.position (i : Input) : Position :=
  match i.rest with
  | [] => .nowhere
  | (_, p) :: _ => p

def Input.withFault (i : Input) (f : Fault) : Input :=
  { i with fault := i.fault <|> some f }

/-! ## Combinators -/

def succeed (a : α) : Rule α := fun i => some (a, i)

def fail : Rule α := fun _ => none

/-- One rule after the other, nothing skipped between them. -/
def andThen (r : Rule α) (f : α → Rule β) : Rule β := fun i =>
  match r i with
  | none => none
  | some (a, i) => f a i

def mapRule (f : α → β) (r : Rule α) : Rule β := andThen r fun a => succeed (f a)

/-- The first rule that matches. -/
def choice : List (Rule α) → Rule α
  | [], _ => none
  | r :: rs, i =>
    match r i with
    | some result => some result
    | none => choice rs i

def optional (r : Rule α) : Rule (Option α) := fun i =>
  match r i with
  | some (a, i) => some (some a, i)
  | none => some (none, i)

/-- Match nothing, provided that the rule does not match here. -/
def absent (r : Rule α) : Rule Unit := fun i =>
  match r i with
  | some _ => none
  | none => some ((), i)

/-- As many as match, at most `fuel`. -/
def repeated (r : Rule α) : Nat → Rule (List α)
  | 0 => succeed []
  | fuel + 1 => fun i =>
    match r i with
    | none => some ([], i)
    | some (a, i) =>
      match repeated r fuel i with
      | none => some ([a], i)
      | some (as, i) => some (a :: as, i)

/-- As many as match. -/
def many (r : Rule α) : Rule (List α) := fun i => repeated r i.rest.length i

/-! ## Characters -/

def charWhere (p : Char → Bool) : Rule Char := fun i =>
  match i.rest with
  | [] => none
  | (c, _) :: rest => if p c then some (c, { i with rest }) else none

def chars : List Char → Rule Unit
  | [] => succeed ()
  | c :: cs => andThen (charWhere (· == c)) fun _ => chars cs

def word (s : String) : Rule Unit := chars s.toList

def isDigit (c : Char) : Bool := '0' ≤ c && c ≤ '9'

def isLetter (c : Char) : Bool := ('a' ≤ c && c ≤ 'z') || ('A' ≤ c && c ≤ 'Z')

def isNameStart (c : Char) : Bool := isLetter c || c == '_'

def isNameChar (c : Char) : Bool := isLetter c || isDigit c || c == '_'

/-- Blanks: spaces, commas, tabs, byte order marks and line ends. -/
def isIgnored (c : Char) : Bool :=
  c == ' ' || c == ',' || c == '\t' || c == '\ufeff' || c == '\r' || c == '\n'

def isLineEnd (c : Char) : Bool := c == '\r' || c == '\n'

/-- Drop blanks and comments; inside a comment everything up to the line end. -/
def dropIgnored (inComment : Bool) : List (Char × Position) → List (Char × Position)
  | [] => []
  | (c, p) :: rest =>
    if inComment then
      if isLineEnd c then dropIgnored false rest else dropIgnored true rest
    else if isIgnored c then dropIgnored false rest
    else if c == '#' then dropIgnored true rest
    else (c, p) :: rest

def skip : Rule Unit := fun i => some ((), { i with rest := dropIgnored false i.rest })

/-- One rule after the other, blanks and comments skipped between them. -/
def next (r : Rule α) (f : α → Rule β) : Rule β :=
  andThen r fun a => andThen skip fun _ => f a

/-- As many as match, blanks and comments skipped between them. -/
def manyApart (r : Rule α) : Rule (List α) := fun i =>
  match r i with
  | none => some ([], i)
  | some (a, i) =>
    match many (andThen skip fun _ => r) i with
    | none => some ([a], i)
    | some (as, i) => some (a :: as, i)

/-- One or more, blanks and comments skipped between them. -/
def someApart (r : Rule α) : Rule (List α) := fun i =>
  match manyApart r i with
  | some ([], _) => none
  | result => result

/-- The node of a rule together with the position where it begins. -/
def located (r : Rule α) : Rule (Position × α) := fun i =>
  mapRule (fun a => (i.position, a)) r i

/-! ## Names and numbers -/

def name : Rule String :=
  andThen (charWhere isNameStart) fun c =>
  mapRule (fun cs => String.ofList (c :: cs)) (many (charWhere isNameChar))

def digitValue (c : Char) : Nat := c.toNat - '0'.toNat

def digits : Rule (List Nat) := fun i =>
  match many (charWhere isDigit) i with
  | some ([], _) | none => none
  | some (cs, i) => some (cs.map digitValue, i)

def whole : Rule (Bool × List Nat) :=
  andThen (optional (word "-")) fun minus =>
  mapRule (fun ds => (minus.isSome, ds)) <|
    choice [
      mapRule (fun _ => [0]) (word "0"),
      andThen (charWhere fun c => '1' ≤ c && c ≤ '9') fun c =>
        mapRule (fun cs => (c :: cs).map digitValue) (many (charWhere isDigit))]

def fraction : Rule (List Nat) := andThen (word ".") fun _ => digits

def exponent : Rule (Bool × List Nat) :=
  andThen (charWhere fun c => c == 'e' || c == 'E') fun _ =>
  andThen (optional (charWhere fun c => c == '+' || c == '-')) fun sign =>
  mapRule (fun ds => (sign == some '-', ds)) digits

/-- A number is not followed by a name.  The parts after the point and the exponent are taken
whenever they are there. -/
def number : Rule Number :=
  andThen whole fun (negative, ds) =>
  andThen (optional fraction) fun f =>
  andThen (optional exponent) fun e =>
  andThen (absent (charWhere isNameStart)) fun _ => fun i =>
    match Number.Literal.value ⟨negative, ds, f, e⟩ with
    | some n => some (n, i)
    | none => some (.int 0, i.withFault .numberTooLarge)

/-! ## Strings -/

def hexValue (c : Char) : Nat :=
  if isDigit c then c.toNat - '0'.toNat
  else if 'a' ≤ c && c ≤ 'f' then c.toNat - 'a'.toNat + 10
  else c.toNat - 'A'.toNat + 10

def isHexDigit (c : Char) : Bool :=
  isDigit c || ('a' ≤ c && c ≤ 'f') || ('A' ≤ c && c ≤ 'F')

/-- Four hexadecimal digits that are no surrogate. -/
def scalarValue : Rule Char :=
  let hex := charWhere isHexDigit
  andThen hex fun a => andThen hex fun b => andThen hex fun c => andThen hex fun d =>
  let n := hexValue a * 4096 + hexValue b * 256 + hexValue c * 16 + hexValue d
  if 0xd800 ≤ n ∧ n ≤ 0xdfff then fail else succeed (Char.ofNat n)

def escape : Rule Char :=
  andThen (charWhere (· == '\\')) fun _ =>
  choice [
    charWhere (fun c => c == '"' || c == '\\' || c == '/'),
    mapRule (fun _ => Char.ofNat 8) (word "b"),
    mapRule (fun _ => Char.ofNat 12) (word "f"),
    mapRule (fun _ => '\n') (word "n"),
    mapRule (fun _ => '\r') (word "r"),
    mapRule (fun _ => '\t') (word "t"),
    andThen (word "u") fun _ => scalarValue]

def stringChar : Rule Char :=
  choice [charWhere (fun c => c != '"' && c != '\\' && !isLineEnd c), escape]

def tripleQuote : Rule Unit := word "\"\"\""

/-- A character between triple quotes; escaped triple quotes stay as they are written. -/
def blockChar : Rule (List Char) :=
  let escaped := word "\\\"\"\""
  choice [
    andThen (absent tripleQuote) fun _ => andThen (absent escaped) fun _ =>
      mapRule (fun c => [c]) (charWhere fun _ => true),
    mapRule (fun _ => "\\\"\"\"".toList) escaped]

def blockString : Rule String :=
  andThen tripleQuote fun _ =>
  andThen (many blockChar) fun css =>
  mapRule (fun _ => String.ofList (BlockText.value css.flatten)) tripleQuote

def plainString : Rule String :=
  andThen (word "\"") fun _ =>
  andThen (many stringChar) fun cs =>
  mapRule (fun _ => String.ofList cs) (word "\"")

def string : Rule String := choice [blockString, plainString]

/-! ## Values -/

def boolean : Rule Bool :=
  choice [mapRule (fun _ => true) (word "true"), mapRule (fun _ => false) (word "false")]

def enumName : Rule String :=
  andThen (absent boolean) fun _ => andThen (absent (word "null")) fun _ => name

/-- A value whose variables are read by `variableName`. -/
def value (variableName : Rule ν) : Nat → Rule (Value ν)
  | 0 => fail
  | fuel + 1 =>
    let item := value variableName fuel
    let member := next name fun key => next (word ":") fun _ => mapRule (fun v => (key, v)) item
    choice [
      mapRule .variable variableName,
      mapRule .number number,
      mapRule .string string,
      mapRule .boolean boolean,
      mapRule (fun _ => .null) (word "null"),
      mapRule .enum enumName,
      next (word "[") fun _ => next (manyApart item) fun items =>
        mapRule (fun _ => .list items) (word "]"),
      next (word "\x7b") fun _ => next (manyApart member) fun members =>
        mapRule (fun _ => .object (OrderedMap.ofEntries members)) (word "\x7d")]

def variableName : Rule String := next (word "$") fun _ => name

/-- A rule that may recurse as deep as the rest of the input is long. -/
def byLength (r : Nat → Rule α) : Rule α := fun i => r (i.rest.length + 1) i

def anyValue : Rule (Value String) := byLength (value variableName)

def constValue : Rule Const := byLength (value fail)

/-! ## Arguments, directives and types -/

def argument : Rule Argument :=
  next name fun key => next (word ":") fun _ =>
  mapRule (fun (p, v) => ⟨key, p, v⟩) (located anyValue)

def arguments : Rule (List Argument) :=
  next (word "(") fun _ => next (someApart argument) fun as => mapRule (fun _ => as) (word ")")

def directive : Rule Directive := fun i =>
  (next (word "@") fun _ => next name fun n =>
    mapRule (fun as => Directive.mk i.position n (as.getD [])) (optional arguments)) i

/-- Directives, possibly none. -/
def directives : Rule (List Directive) := manyApart directive

/-- A type, written without blanks. -/
def type : Nat → Rule TypeRef
  | 0 => fail
  | fuel + 1 =>
    andThen
      (choice [
        mapRule .named name,
        andThen (word "[") fun _ => andThen (type fuel) fun t =>
          mapRule (fun _ => .list t) (word "]")]) fun t =>
    mapRule (fun bang => if bang.isSome then .nonNull t else t) (optional (word "!"))

def anyType : Rule TypeRef := byLength type

/-- `on`, at least one blank, and a name. -/
def typeCondition : Rule String :=
  andThen (word "on") fun _ =>
  andThen (charWhere isIgnored) fun _ =>
  andThen (many (charWhere isIgnored)) fun _ => name

/-! ## Selections -/

/-- The deepest nesting of selection sets inside an operation or a fragment. -/
def maxNesting : Nat := 64

def field (nested : Rule (List Selection)) : Rule Selection := fun i =>
  let aliasName := next name fun a => mapRule (fun _ => a) (word ":")
  (next (optional aliasName) fun renamed => next name fun n => next (optional arguments) fun as =>
    next directives fun ds =>
    mapRule (fun selections =>
      .field ⟨i.position, renamed, n, as.getD [], ds⟩ (selections.getD [])) (optional nested)) i

def inlineFragment (nested : Rule (List Selection)) : Rule Selection := fun i =>
  (next (word "...") fun _ => next (optional typeCondition) fun condition =>
    next directives fun ds =>
    mapRule (fun selections => .inlineFragment i.position condition ds selections) nested) i

def fragmentSpread : Rule Selection := fun i =>
  (next (word "...") fun _ => next (absent typeCondition) fun _ => next name fun n =>
    mapRule (fun ds => .spread i.position n ds) directives) i

/-- Selections in braces, `depth` sets deep inside the outermost ones. -/
def selectionSet (depth : Nat) : Nat → Rule (List Selection)
  | 0 => fail
  | fuel + 1 => fun i =>
    let i := if maxNesting < depth then i.withFault .nestedTooDeep else i
    let nested := selectionSet (depth + 1) fuel
    let selection := choice [field nested, inlineFragment nested, fragmentSpread]
    (next (word "\x7b") fun _ => next (someApart selection) fun selections =>
      mapRule (fun _ => selections) (word "\x7d")) i

def outerSelectionSet : Rule (List Selection) := byLength (selectionSet 0)

/-! ## Definitions -/

def operationKind : Rule OperationKind :=
  choice [
    mapRule (fun _ => .query) (word "query"),
    mapRule (fun _ => .mutation) (word "mutation"),
    mapRule (fun _ => .subscription) (word "subscription")]

def variableDefinition : Rule VariableDefinition :=
  let default := next (word "=") fun _ => constValue
  next (next (word "$") fun _ => located name) fun (p, n) => next (word ":") fun _ =>
  next anyType fun t => next directives fun _ =>
  mapRule (fun d => ⟨n, p, t, d⟩) (optional default)

def variableDefinitions : Rule (List VariableDefinition) :=
  next (word "(") fun _ => next (manyApart variableDefinition) fun vs =>
  mapRule (fun _ => vs) (word ")")

/-- An operation with its name, if it has one. -/
def operation : Rule (Option String × Operation) := fun i =>
  choice [
    next operationKind fun kind => next (optional name) fun n =>
      next (optional variableDefinitions) fun vs => next directives fun ds =>
      mapRule (fun selections => (n, ⟨i.position, kind, vs.getD [], ds, selections⟩))
        outerSelectionSet,
    mapRule (fun selections => (none, ⟨i.position, .query, [], [], selections⟩))
      outerSelectionSet] i

def fragment : Rule Fragment := fun i =>
  (next (word "fragment") fun _ => next name fun n => next typeCondition fun condition =>
    next directives fun _ =>
    mapRule (fun selections => ⟨i.position, n, condition, selections⟩) outerSelectionSet) i

inductive Definition where
  | operation (name : Option String) (operation : Operation)
  | fragment (fragment : Fragment)

def definition : Rule Definition :=
  choice [mapRule (fun (n, o) => .operation n o) operation, mapRule .fragment fragment]

/-- The definitions of a whole text. -/
def definitions : Rule (List Definition) :=
  andThen skip fun _ => next (someApart definition) fun ds => fun i =>
    if i.rest.isEmpty then some (ds, i) else none

end GraphQLEngine.Grammar
