import GraphQLEngine.Json.Basic

/-!
# Access rules

An access rule is a Boolean expression over the caller's identity.  `Identity.satisfies` decides it.
-/

namespace GraphQLEngine

/-- The authenticated caller of an operation; without a subject the caller is anonymous. -/
structure Identity where
  subject : Option String
  roles : List String
  claims : OrderedMap Json
deriving Inhabited

inductive AccessRule where
  | literal (granted : Bool)
  /-- The caller has a subject. -/
  | authenticated
  | role (name : String)
  /-- The caller has this claim with this value. -/
  | claimEq (claim : String) (value : Json)
  | not (rule : AccessRule)
  | and (left right : AccessRule)
  | or (left right : AccessRule)
deriving Inhabited

namespace Identity

def anonymous : Identity := ⟨none, [], []⟩

def withSubject (subject : String) : Identity := ⟨some subject, [], []⟩

def withRole (i : Identity) (role : String) : Identity := { i with roles := i.roles ++ [role] }

def withClaim (i : Identity) (name : String) (value : Json) : Identity :=
  { i with claims := OrderedMap.insert i.claims name value }

def isAuthenticated (i : Identity) : Bool := i.subject.isSome

def hasRole (i : Identity) (role : String) : Bool := i.roles.contains role

/-- Whether the identity has the claim with a value equal to `value`. -/
def hasClaim (i : Identity) (name : String) (value : Json) : Bool :=
  match i.claims.lookup name with
  | some v => v.sameValue value
  | none => false

/-- Whether the rule grants access to the identity. -/
def satisfies (i : Identity) : AccessRule → Bool
  | .literal granted => granted
  | .authenticated => i.isAuthenticated
  | .role name => i.hasRole name
  | .claimEq claim value => i.hasClaim claim value
  | .not rule => !i.satisfies rule
  | .and left right => i.satisfies left && i.satisfies right
  | .or left right => i.satisfies left || i.satisfies right

def toJson (i : Identity) : Json :=
  .obj [
    ("subject", Json.ofOption .str i.subject),
    ("roles", Json.ofStrings i.roles),
    ("claims", .obj i.claims)]

end Identity

namespace AccessRule

/-- Everybody has access. -/
def isPublic : AccessRule → Bool
  | .literal true => true
  | _ => false

/-! ## Encoding -/

def toJson : AccessRule → Json
  | .literal granted => .obj [("BooleanLiteral", .bool granted)]
  | .authenticated => .str "Authenticated"
  | .role name => .obj [("Role", .str name)]
  | .claimEq claim value =>
    .obj [("ClaimEq", .obj [("claim", .str claim), ("value", value)])]
  | .not rule => .obj [("Not", rule.toJson)]
  | .and left right => .obj [("And", .arr [left.toJson, right.toJson])]
  | .or left right => .obj [("Or", .arr [left.toJson, right.toJson])]

/-- Read a rule; the parts of a claim may come in either order. -/
def ofJson? : Json → Option AccessRule
  | .str "Authenticated" => some .authenticated
  | .obj [("BooleanLiteral", .bool granted)] => some (.literal granted)
  | .obj [("Role", .str name)] => some (.role name)
  | .obj [("ClaimEq", .obj [("claim", .str claim), ("value", value)])] =>
    some (.claimEq claim value)
  | .obj [("ClaimEq", .obj [("value", value), ("claim", .str claim)])] =>
    some (.claimEq claim value)
  | .obj [("Not", rule)] => (ofJson? rule).map .not
  | .obj [("And", .arr [left, right])] => do
    pure (.and (← ofJson? left) (← ofJson? right))
  | .obj [("Or", .arr [left, right])] => do
    pure (.or (← ofJson? left) (← ofJson? right))
  | _ => none

theorem ofJson_toJson (r : AccessRule) : ofJson? r.toJson = some r := by
  induction r with
  | literal | authenticated | role | claimEq => rfl
  | not rule ih => simp [toJson, ofJson?, ih]
  | and left right ihl ihr => simp [toJson, ofJson?, ihl, ihr]
  | or left right ihl ihr => simp [toJson, ofJson?, ihl, ihr]

end AccessRule

end GraphQLEngine
