import GraphQLEngine.Json.Basic

/-!
# Values in documents

A value may hold variables.  The type of their names is a parameter, so a constant is a value over
an empty type of names, and one definition serves both.

    (v.resolve env) = .ok c    →  c is v with every variable replaced by its value
    (Const.ofJson j).toJson = j
-/

namespace GraphQLEngine

inductive Value (ν : Type) where
  | variable (name : ν)
  | null
  | number (n : Number)
  | string (s : String)
  | boolean (b : Bool)
  | enum (name : String)
  | list (items : List (Value ν))
  | object (members : List (String × Value ν))
deriving Inhabited

/-- A value without variables. -/
abbrev Const := Value Empty

namespace Value

variable {ν ε : Type}

/-! ## Text -/

/-- A control character of the ranges C0 and C1, or delete. -/
def isControl (c : Char) : Bool := c.toNat < 0x20 || (0x7f ≤ c.toNat && c.toNat ≤ 0x9f)

/-- A number of at least four digits. -/
def fourDigits (n : Nat) : String :=
  let digits := toString n
  String.ofList (List.replicate (4 - digits.length) '0') ++ digits

def escapeChar (c : Char) : String :=
  if c = '\r' then "\\r"
  else if c = '\n' then "\\n"
  else if c = '\t' then "\\t"
  else if c = '"' then "\\\""
  else if c = '\\' then "\\\\"
  else if isControl c then "\\u" ++ fourDigits c.toNat
  else String.singleton c

def quote (s : String) : String := "\"" ++ String.join (s.toList.map escapeChar) ++ "\""

mutual

/-- The notation of the query language. -/
def render (variableText : ν → String) : Value ν → String
  | .variable name => variableText name
  | .null => "null"
  | .number n => n.render
  | .string s => quote s
  | .boolean b => if b then "true" else "false"
  | .enum name => name
  | .list items => "[" ++ ", ".intercalate (renderItems variableText items) ++ "]"
  | .object members => "\x7b" ++ ", ".intercalate (renderMembers variableText members) ++ "\x7d"

def renderItems (variableText : ν → String) : List (Value ν) → List String
  | [] => []
  | v :: vs => render variableText v :: renderItems variableText vs

def renderMembers (variableText : ν → String) : List (String × Value ν) → List String
  | [] => []
  | (key, v) :: vs => (key ++ ": " ++ render variableText v) :: renderMembers variableText vs

end

/-! ## Variables -/

mutual

/-- The constant that is left when each variable is replaced by its value; the first variable
without one, in the order of the text, decides the error. -/
def resolve (lookup : ν → Except ε Const) : Value ν → Except ε Const
  | .variable name => lookup name
  | .null => .ok .null
  | .number n => .ok (.number n)
  | .string s => .ok (.string s)
  | .boolean b => .ok (.boolean b)
  | .enum name => .ok (.enum name)
  | .list items => (resolveItems lookup items).map .list
  | .object members => (resolveMembers lookup members).map .object

def resolveItems (lookup : ν → Except ε Const) : List (Value ν) → Except ε (List Const)
  | [] => .ok []
  | v :: vs => do
    let c ← resolve lookup v
    let cs ← resolveItems lookup vs
    pure (c :: cs)

def resolveMembers (lookup : ν → Except ε Const) :
    List (String × Value ν) → Except ε (List (String × Const))
  | [] => .ok []
  | (key, v) :: vs => do
    let c ← resolve lookup v
    let cs ← resolveMembers lookup vs
    pure ((key, c) :: cs)

end

/-- The constant, if the value holds no variable. -/
def closed? (v : Value ν) : Option Const :=
  match v.resolve (fun _ => Except.error (ε := Unit) ()) with
  | .ok c => some c
  | .error () => none

/-- The name of the form of a value. -/
def form : Value ν → String
  | .variable _ => "Variable"
  | .null => "Null"
  | .number _ => "Number"
  | .string _ => "String"
  | .boolean _ => "Boolean"
  | .enum _ => "Enum"
  | .list _ => "List"
  | .object _ => "Object"

end Value

namespace Const

def render (c : Const) : String := Value.render (fun name => nomatch name) c

/-! ## Constants and JSON -/

mutual

/-- Enum names become strings. -/
def toJson : Const → Json
  | .variable name => nomatch name
  | .null => .null
  | .number n => .num n
  | .string s => .str s
  | .boolean b => .bool b
  | .enum name => .str name
  | .list items => .arr (itemsToJson items)
  | .object members => .obj (membersToJson members)

def itemsToJson : List Const → List Json
  | [] => []
  | c :: cs => toJson c :: itemsToJson cs

def membersToJson : List (String × Const) → List (String × Json)
  | [] => []
  | (key, c) :: cs => (key, toJson c) :: membersToJson cs

end

mutual

def ofJson : Json → Const
  | .null => .null
  | .bool b => .boolean b
  | .num n => .number n
  | .str s => .string s
  | .arr items => .list (itemsOfJson items)
  | .obj members => .object (membersOfJson members)

def itemsOfJson : List Json → List Const
  | [] => []
  | j :: js => ofJson j :: itemsOfJson js

def membersOfJson : List (String × Json) → List (String × Const)
  | [] => []
  | (key, j) :: js => (key, ofJson j) :: membersOfJson js

end

mutual

theorem toJson_ofJson : (j : Json) → toJson (ofJson j) = j
  | .null | .bool _ | .num _ | .str _ => rfl
  | .arr items => by rw [ofJson, toJson, items_toJson_ofJson items]
  | .obj members => by rw [ofJson, toJson, members_toJson_ofJson members]

theorem items_toJson_ofJson : (js : List Json) → itemsToJson (itemsOfJson js) = js
  | [] => rfl
  | j :: js => by rw [itemsOfJson, itemsToJson, toJson_ofJson j, items_toJson_ofJson js]

theorem members_toJson_ofJson :
    (js : List (String × Json)) → membersToJson (membersOfJson js) = js
  | [] => rfl
  | (key, j) :: js => by
    rw [membersOfJson, membersToJson, toJson_ofJson j, members_toJson_ofJson js]

end

end Const

end GraphQLEngine
